import CallBridge.Net.Address

/-!
# Networks

What a socket answers when it is given a datagram. A datagram is taken, or it is dropped without a
word because the socket is busy, or it is refused with a reason. The answer depends on the addresses
and on the size of the datagram, and it may be another one each time.

A host that is connected takes every datagram of a permitted size to an address of the family that
it is sent from. A host that is isolated has no route to anywhere, itself included.

Results:
* `connected_answer_iff`: what a connected host takes.
-/

namespace CallBridge.Net

/-- What becomes of a datagram that is given to a socket. -/
inductive Answer where
  /-- It is on its way. -/
  | taken
  /-- It is dropped, as the socket has no room for it. -/
  | busy
  | refused (reason : String)
deriving DecidableEq, Repr, Inhabited

/-- The network of a host, told by the answers of a socket: how many datagrams it was given before,
where it stands, where the datagram goes, and how many bytes this has. -/
structure Network where
  answer : Nat → Address → Address → Nat → Answer
deriving Inhabited

/-- The most bytes that a datagram to an address can have. -/
def Address.mostBytes (a : Address) : Nat := if a.isV4 then 65507 else 65527

namespace Network

/-- The network of a host with a route to every address. -/
def connected : Network where
  answer _ source target size :=
    if source.isV4 ≠ target.isV4 then .refused "address family is not supported"
    else if target.mostBytes < size then .refused "message is too long"
    else .taken

/-- The network of a host without any route. -/
def isolated : Network where
  answer _ _ _ _ := .refused "network is unreachable"

theorem connected_answer_iff {n size : Nat} {source target : Address} :
    connected.answer n source target size = .taken ↔
      source.isV4 = target.isV4 ∧ size ≤ target.mostBytes := by
  dsimp only [connected]
  split
  · simp_all
  · split <;> simp_all

end Network

end CallBridge.Net
