import CallBridge.Bridge.Session

/-!
# The ledger of a session

What a session shows of itself: its descriptions, and of every stream the port, the payload types
that it relays, and whether it was negotiated. A ledger is kept by the updates alone, given what
requests for streams come to, one after the other, and what else is answered on the way: whether the
receiver attaches new streams, whether a relay can be set up, and whether a leg can be negotiated.

Of a remote description only the audio lines matter. The pairs grow one at a time up to their
number, or up to the first line for which a stream cannot be allocated or attached, and every line
that has a pair sets the relay mask on the other leg and the state of its own leg. A local
description only negotiates what is there already.

Results:
* `growth_succ`: pairs are opened one after the other.
* `knowsAll_ledger`: a ledger knows of the same descriptions as its session.
-/

namespace CallBridge.Bridge

open Rtp (MediaStream)
open Sdp (Description Media)

/-! ## Records -/

/-- What shows of a stream. -/
structure StreamRecord where
  port : UInt16
  mask : Option PayloadMask
deriving DecidableEq, Repr, Inhabited

/-- What shows of a leg in a pair. -/
structure LegRecord where
  stream : StreamRecord
  initialized : Bool
deriving DecidableEq, Repr, Inhabited

/-- What shows of a pair. -/
abbrev PairRecord := PerLeg LegRecord

/-- What was answered while an audio line was applied: by the receiver that new streams were to be
attached to, to the request to relay the line's payload types, and to the negotiation of the leg. -/
structure LineAnswer where
  attached : Outcome Unit
  relayed : Outcome Unit
  negotiated : Outcome Unit
deriving Inhabited

namespace PairRecord

/-- A pair of streams just allocated. -/
def fresh (streams : PerLeg StreamRecord) : PairRecord := ⟨⟨streams.a, false⟩, ⟨streams.b, false⟩⟩

/-- The pair with another relay mask on the stream of a leg. -/
def setMask (p : PairRecord) (l : Leg) (mask : Option PayloadMask) : PairRecord :=
  p.modify l fun r => { r with stream := { r.stream with mask } }

/-- The pair with a leg negotiated or not. -/
def setInitialized (p : PairRecord) (l : Leg) (initialized : Bool) : PairRecord :=
  p.modify l fun r => { r with initialized }

/-- The pair after a remote audio line of a leg: the other leg relays what the line lists, and the
leg is negotiated if its local description is known and the negotiation went well. -/
def afterRemote (p : PairRecord) (l : Leg) (known : Bool) (media : Media) (a : LineAnswer) :
    PairRecord :=
  (p.setMask l.opposite
    (if media.payloads.isEmpty || !a.relayed.isOk then none else some media.mask)).setInitialized l
    (known && a.negotiated.isOk)

/-- The pairs after the remote audio lines of a leg, each line for the pair in its place. -/
def afterLines (l : Leg) (known : Bool) (lines : List Media) (answers : Nat → LineAnswer)
    (ps : List PairRecord) : List PairRecord :=
  ps.mapIdx fun i p =>
    match lines[i]? with
    | some media => p.afterRemote l known media (answers i)
    | none => p

/-- The pairs after a number of local audio lines of a leg, each line for the pair in its place. -/
def afterLocal (l : Leg) (lines : Nat) (answers : Nat → LineAnswer) (ps : List PairRecord) :
    List PairRecord :=
  ps.mapIdx fun i p => if i < lines then p.setInitialized l (answers i).negotiated.isOk else p

end PairRecord

/-- The pairs opened for a number of lines one at a time, the first of them for the line with an
index, the number of requests for streams by then, and the first failure. A pair needs a stream for
each leg, and both attached to the receiver. -/
def growth (allocated : Nat → Leg → Outcome StreamRecord) (attached : Nat → Outcome Unit) :
    (requests index wanted : Nat) → List PairRecord × Nat × Outcome Unit
  | requests, _, 0 => ([], requests, .ok ())
  | requests, index, wanted + 1 =>
    match allocated requests .a with
    | .error f => ([], requests + 1, .error f)
    | .ok a =>
      match allocated (requests + 1) .b with
      | .error f => ([], requests + 2, .error f)
      | .ok b =>
        match attached index with
        | .error f => ([], requests + 2, .error f)
        | .ok () =>
          let more := growth allocated attached (requests + 2) (index + 1) wanted
          (PairRecord.fresh ⟨a, b⟩ :: more.1, more.2)

/-! ## Ledgers -/

/-- What shows of a session. -/
structure Ledger where
  localSdp : PerLeg Description
  remoteSdp : PerLeg Description
  pairs : List PairRecord
  requests : Nat
  registered : Bool
  references : Nat

namespace Ledger

/-- Whether all four descriptions have media. -/
def knowsAll (g : Ledger) : Bool :=
  Leg.both.all fun l => !(g.localSdp.get l).isEmpty && !(g.remoteSdp.get l).isEmpty

/-- The ledger after the session was handed to the scheduler, which holds a reference from then on,
if all descriptions are known and it was not before. -/
def register (g : Ledger) : Ledger :=
  if g.knowsAll && !g.registered then
    { g with registered := true, references := g.references + 1 }
  else g

/-- The ledger after a remote description of a leg, and the first failure to open a pair. -/
def updateRemote (g : Ledger) (allocated : Nat → Leg → Outcome StreamRecord) (l : Leg)
    (sdp : Description) (answers : Nat → LineAnswer) : Ledger × Outcome Unit :=
  let theirs := sdp.normal
  let lines := theirs.audioMedia.map (·.2)
  let known := !(g.localSdp.get l).isEmpty
  let (opened, requests, outcome) := growth allocated (fun i => (answers i).attached) g.requests
    g.pairs.length (lines.length - g.pairs.length)
  let pairs := PairRecord.afterLines l known lines answers (g.pairs ++ opened)
  ({ g with remoteSdp := g.remoteSdp.set l theirs, pairs, requests }.register, outcome)

/-- The ledger after a local description of a leg. -/
def updateLocal (g : Ledger) (l : Leg) (sdp : Description) (answers : Nat → LineAnswer) : Ledger :=
  let ours := sdp.normal
  let pairs :=
    if (g.remoteSdp.get l).isEmpty then g.pairs
    else PairRecord.afterLocal l ours.audioMedia.length answers g.pairs
  { g with localSdp := g.localSdp.set l ours, pairs }.register

end Ledger

/-! ## Updates -/

/-- A description of a leg that comes in at a time. -/
inductive Update where
  | localSdp (now : Nat) (l : Leg) (sdp : Description)
  | remoteSdp (now : Nat) (l : Leg) (sdp : Description)
deriving Inhabited

namespace Ledger

/-- The ledger after an update, and what the update gave back. -/
def update (g : Ledger) (allocated : Nat → Leg → Outcome StreamRecord) (u : Update)
    (answers : Nat → LineAnswer) : Ledger × Outcome Unit :=
  match u with
  | .localSdp _ l sdp => (g.updateLocal l sdp answers, .ok ())
  | .remoteSdp _ l sdp => g.updateRemote allocated l sdp answers

/-- The ledger after a run of updates with the answers given in each of them, and what each of them
gave back. Requests for streams are answered one after the other, through the whole run. -/
def run (g : Ledger) (allocated : Nat → Leg → Outcome StreamRecord) :
    List (Update × (Nat → LineAnswer)) → Ledger × List (Outcome Unit)
  | [] => (g, [])
  | (u, answers) :: rest =>
    let (g, outcome) := g.update allocated u answers
    let (g, outcomes) := g.run allocated rest
    (g, outcome :: outcomes)

end Ledger

/-! ## The ledger that a session shows -/

section

variable {σ : Type} [MediaStream σ]

/-- What shows of a stream. -/
def streamRecord (s : σ) : StreamRecord := ⟨MediaStream.port s, MediaStream.relayMask s⟩

/-- What shows of the media of a leg. -/
def LegMedia.record (m : LegMedia σ) : LegRecord := ⟨streamRecord m.stream, m.initialized⟩

/-- What shows of a pair. -/
def Pair.record (p : Pair σ) : PairRecord := ⟨p.legs.a.record, p.legs.b.record⟩

/-- What shows of the streams that are allocated on request. -/
def Surroundings.allocated (x : Surroundings σ) (n : Nat) (l : Leg) : Outcome StreamRecord :=
  (x.allocate n l).map streamRecord

/-- What shows of a session. -/
def Session.ledger (s : Session σ) : Ledger where
  localSdp := s.localSdp
  remoteSdp := s.remoteSdp
  pairs := s.pairs.map Pair.record
  requests := s.requests
  registered := s.registered
  references := s.references

theorem knowsAll_ledger (s : Session σ) : s.ledger.knowsAll = s.knowsAll := rfl

end

/-! ## Laws -/

namespace PairRecord

theorem setInitialized_setInitialized (p : PairRecord) (l : Leg) (x y : Bool) :
    (p.setInitialized l x).setInitialized l y = p.setInitialized l y := by
  cases l <;> rfl

theorem afterLines_nil (l : Leg) (known : Bool) (answers : Nat → LineAnswer)
    (ps : List PairRecord) : afterLines l known [] answers ps = ps := by
  rw [afterLines, List.mapIdx_eq_iff]
  intro i
  simp

theorem afterLines_cons (l : Leg) (known : Bool) (media : Media) (lines : List Media)
    (answers : Nat → LineAnswer) (p : PairRecord) (ps : List PairRecord) :
    afterLines l known (media :: lines) answers (p :: ps) =
      p.afterRemote l known media (answers 0) ::
        afterLines l known lines (fun i => answers (i + 1)) ps := by
  simp only [afterLines, List.mapIdx_cons, List.getElem?_cons_zero, List.getElem?_cons_succ]

theorem afterLocal_zero (l : Leg) (answers : Nat → LineAnswer) (ps : List PairRecord) :
    afterLocal l 0 answers ps = ps := by
  rw [afterLocal, List.mapIdx_eq_iff]
  intro i
  simp

theorem afterLocal_succ (l : Leg) (lines : Nat) (answers : Nat → LineAnswer) (p : PairRecord)
    (ps : List PairRecord) :
    afterLocal l (lines + 1) answers (p :: ps) =
      p.setInitialized l (answers 0).negotiated.isOk ::
        afterLocal l lines (fun i => answers (i + 1)) ps := by
  simp only [afterLocal, List.mapIdx_cons, Nat.zero_lt_succ, if_true, Nat.add_lt_add_iff_right]

end PairRecord

/-- Pairs are opened one after the other, whichever line the count starts from. -/
theorem growth_succ (allocated : Nat → Leg → Outcome StreamRecord) (attached : Nat → Outcome Unit)
    (requests index wanted : Nat) :
    growth allocated (fun i => attached (i + 1)) requests index wanted =
      growth allocated attached requests (index + 1) wanted := by
  induction wanted generalizing requests index with
  | zero => rfl
  | succ wanted ih =>
    rw [growth, growth]
    simp only [ih]

end CallBridge.Bridge
