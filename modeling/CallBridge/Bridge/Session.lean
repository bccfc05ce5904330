import CallBridge.Bridge.Pair
import CallBridge.Bridge.Redirect
import CallBridge.Sdp.StaticPayload
import CallBridge.SessionId
import CallBridge.Settings.Basic

/-!
# Media sessions of bridged calls

A session owns the stream pairs of one call and the four descriptions that they are set up from, a
local and a remote one for each leg. Every audio line of a remote description gets a pair when it is
seen first. Once all four descriptions are known the session is handed to the media scheduler and
stays with it until it is stopped.

A session counts the references to it: one for each handle that somebody holds, and one while the
scheduler has it. It is torn down for good when the last reference is given back.

The surroundings of a session answer for what lies outside: which stream is allocated, whether a
leg wants to hear of keys, and whether the scheduler takes the session.

In the media core, `Session` is `B2BMediaSession` with its `SessionState`, `Surroundings` is
`B2BMediaContext` with the two `SignalingLeg`s, and `Notice` is `MediaEvent`. `updateRemote` and
`updateLocal` are `update_remote_sdp` and `update_local_sdp`, `renegotiate` is `init_pair_leg`,
`enlist` is `update_processing_state`, `replaceAddress` is `replace_connection_address`,
`setAlternate` and `attachBuffered` are `set_alternate_input` and `attach_buffered_input`,
`addReference`, `releaseReference` and `finalize` keep their names, `processKeys` is
`process_dtmf_events`, and `started`, `suspended`, `terminated` and `failed` are the hooks
`on_media_processing_…`.

Results:
* `terminated_terminated`: a second termination gives nothing back.
-/

namespace CallBridge.Bridge

open Rtp (MediaStream Receiver)
open Sdp (Description Media)

variable {σ : Type}

/-- What the signaling of a leg is told. -/
inductive Notice where
  /-- A key was pressed on the leg. -/
  | key (event : Dtmf.Event)
  /-- Media is no longer processed. -/
  | terminated
  /-- Processing of media failed. -/
  | failed (reason : String)
deriving DecidableEq, Repr, Inhabited

/-- What a session relies on: the settings of bridging, and the answers to its requests for
streams, one after the other. -/
structure Surroundings (σ : Type) where
  settings : Settings.Bridging
  allocate : Nat → Leg → Outcome σ

/-- The media session of a call. -/
structure Session (σ : Type) where
  id : SessionId
  callgroup : String
  detects : PerLeg Bool
  localSdp : PerLeg Description
  remoteSdp : PerLeg Description
  pairs : List (Pair σ)
  registered : Bool
  stopped : Bool
  references : Nat
  scheduled : Bool
  processing : Bool
  finalized : Bool
  teardowns : Nat
  submissions : Nat
  requests : Nat
  receiver : Receiver
  posted : PerLeg (List Notice)
  released : List (Leg × σ)
  retired : List Audio.Feed

namespace Session

/-- A session before anything is known. -/
def fresh (id : SessionId) (callgroup : String) (detects : PerLeg Bool) (receiver : Receiver) :
    Session σ where
  id := id
  callgroup := callgroup
  detects := detects
  localSdp := ⟨Description.empty, Description.empty⟩
  remoteSdp := ⟨Description.empty, Description.empty⟩
  pairs := []
  registered := false
  stopped := false
  references := 0
  scheduled := false
  processing := false
  finalized := false
  teardowns := 0
  submissions := 0
  requests := 0
  receiver := receiver
  posted := ⟨[], []⟩
  released := []
  retired := []

/-! ## Queries -/

/-- Whether all four descriptions have media. -/
def knowsAll (s : Session σ) : Bool :=
  Leg.both.all fun l => !(s.localSdp.get l).isEmpty && !(s.remoteSdp.get l).isEmpty

/-- Whether the session is to be handed to the scheduler. -/
def isReady (s : Session σ) : Bool := !s.registered && !s.stopped && s.knowsAll

/-- The ports of a leg's streams, pair by pair. -/
def ports [MediaStream σ] (s : Session σ) (l : Leg) : List UInt16 := s.pairs.map (·.port l)

/-! ## Giving up -/

/-- The session with a pair out of use. -/
def dropPair [MediaStream σ] (s : Session σ) (p : Pair σ) : Session σ :=
  let (p, receiver, feeds) := p.clear s.receiver
  { s with
    receiver
    retired := s.retired ++ feeds
    released := s.released ++ Leg.both.map fun l => (l, p.stream l) }

/-- The session without pairs. -/
def clearAudio [MediaStream σ] (s : Session σ) : Session σ :=
  s.pairs.foldl dropPair { s with pairs := [] }

/-- The session torn down: nothing is left of its media. -/
def tearDown [MediaStream σ] (s : Session σ) : Session σ :=
  { s.clearAudio with teardowns := s.teardowns + 1 }

/-- The session torn down, unless it was before. -/
def finalize [MediaStream σ] (s : Session σ) : Session σ :=
  if s.finalized then s else { s with finalized := true }.tearDown

/-! ## References -/

/-- The session with one more reference to it. -/
def addReference (s : Session σ) : Session σ := { s with references := s.references + 1 }

/-- The session with one reference less, and whether that was the last one. -/
def releaseReference (s : Session σ) : Session σ × Bool :=
  ({ s with references := s.references - 1 }, s.references = 1)

/-- The session after a reference was given back; without the last one it is torn down. -/
def giveBack [MediaStream σ] (s : Session σ) : Session σ :=
  match s.releaseReference with
  | (s, true) => s.finalize
  | (s, false) => s

/-! ## Notices -/

/-- The session after a notice was posted to a leg. -/
def post (s : Session σ) (l : Leg) (notice : Notice) : Session σ :=
  { s with posted := s.posted.modify l (· ++ [notice]) }

/-- The session after a notice was posted to both legs. -/
def postBoth (s : Session σ) (notice : Notice) : Session σ := (s.post .a notice).post .b notice

/-! ## Descriptions -/

/-- The session after it was handed to the scheduler if it is ready. Where the scheduler does not
take it, the scheduler's reference is given back at once. -/
def enlist [MediaStream σ] (s : Session σ) (admitted : Bool) : Session σ :=
  if s.isReady then
    if admitted then
      { s.addReference with
        scheduled := true, registered := true, submissions := s.submissions + 1 }
    else { s.addReference with scheduled := false, registered := false }.giveBack
  else s

/-- The session after it asked for a stream of a leg, and the answer. -/
def allocate (x : Surroundings σ) (s : Session σ) (l : Leg) : Session σ × Outcome σ :=
  ({ s with requests := s.requests + 1 }, x.allocate s.requests l)

/-- The session after it asked for a pair, and the pair. Streams that were allocated in vain are
released. -/
def createPair [MediaStream σ] (x : Surroundings σ) (s : Session σ) :
    Session σ × Outcome (Pair σ) :=
  match s.allocate x .a with
  | (s, .error f) => (s, .error f)
  | (s, .ok a) =>
    match s.allocate x .b with
    | (s, .error f) => ({ s with released := s.released ++ [(.a, a)] }, .error f)
    | (s, .ok b) =>
      match Pair.create a b x.settings.playout s.receiver with
      | (receiver, .ok p) => ({ s with receiver }, .ok p)
      | (receiver, .error f) =>
        ({ s with receiver, released := s.released ++ [(.a, a), (.b, b)] }, .error f)

/-- The session after it made sure that there is a pair with an index, the next one at most. -/
def ensurePair [MediaStream σ] (x : Surroundings σ) (s : Session σ) (index : Nat) :
    Session σ × Outcome Unit :=
  if index = s.pairs.length then
    match s.createPair x with
    | (s, .ok p) => ({ s with pairs := s.pairs ++ [p] }, .ok ())
    | (s, .error f) => (s, .error f)
  else (s, .ok ())

/-- The session after a pair was changed together with the receiver. -/
def modifyPair (s : Session σ) (index : Nat) (f : Pair σ → Receiver → Pair σ × Receiver) :
    Session σ :=
  match s.pairs[index]? with
  | none => s
  | some p =>
    let (p, receiver) := f p s.receiver
    { s with pairs := s.pairs.set index p, receiver }

/-- A pair after a leg was negotiated anew; where that fails, the leg stays out of use. -/
def renegotiate [MediaStream σ] (now : Nat) (l : Leg) (detects : Bool)
    (ours theirs : Description) (line : Nat) (p : Pair σ) (r : Receiver) : Pair σ × Receiver :=
  let (p, r, _) := (p.resetLeg l).1.initLeg r now l detects ours theirs line
  (p, r)

/-- A pair after a remote audio line of a leg was applied to it: the other leg's stream relays
what the line offers, and the leg is negotiated if its local description is known. -/
def applyLine [MediaStream σ] (now : Nat) (l : Leg) (detects : Bool) (ours theirs : Description)
    (line : Nat) (media : Media) (p : Pair σ) (r : Receiver) : Pair σ × Receiver :=
  let (p, r) := p.setRelay r l media
  if ours.isEmpty then ((p.resetLeg l).1, r) else renegotiate now l detects ours theirs line p r

/-- The session after the audio lines of a leg's remote description were applied to the pairs from
an index on. At the first line that gets no pair the rest is left alone. -/
def applyLines [MediaStream σ] (x : Surroundings σ) (now : Nat) (l : Leg) (theirs : Description) :
    List (Nat × Media) → Nat → Session σ → Session σ × Outcome Unit
  | [], _, s => (s, .ok ())
  | (line, media) :: rest, index, s =>
    match s.ensurePair x index with
    | (s, .error f) => (s, .error f)
    | (s, .ok ()) =>
      applyLines x now l theirs rest (index + 1)
        (s.modifyPair index
          (applyLine now l (s.detects.get l) (s.localSdp.get l) theirs line media))

/-- The session after the remote description of a leg came in, and whether every audio line of it
has streams. -/
def updateRemote [MediaStream σ] (x : Surroundings σ) (s : Session σ) (now : Nat) (l : Leg)
    (sdp : Description) (admitted : Bool) : Session σ × Outcome Unit :=
  if s.stopped then (s, .ok ())
  else
    let theirs := sdp.normal
    let known := { s with remoteSdp := s.remoteSdp.set l theirs }
    let (s, allocated) := applyLines x now l theirs theirs.audioMedia 0 known
    (s.enlist admitted, allocated)

/-- The session after a leg of the pairs from an index on was negotiated for media lines. -/
def applyLocal [MediaStream σ] (now : Nat) (l : Leg) (ours theirs : Description) :
    List Nat → Nat → Session σ → Session σ
  | [], _, s => s
  | line :: rest, index, s =>
    applyLocal now l ours theirs rest (index + 1)
      (s.modifyPair index (renegotiate now l (s.detects.get l) ours theirs line))

/-- The session after the local description of a leg came in. -/
def updateLocal [MediaStream σ] (s : Session σ) (now : Nat) (l : Leg) (sdp : Description)
    (admitted : Bool) : Session σ :=
  if s.stopped then s
  else
    let ours := sdp.normal
    let theirs := s.remoteSdp.get l
    let known := { s with localSdp := s.localSdp.set l ours }
    let negotiated :=
      if theirs.isEmpty then known
      else applyLocal now l ours theirs (ours.audioMedia.map (·.1)) 0 known
    negotiated.enlist admitted

/-- A description that is about to be sent to a leg, redirected to the session's streams. -/
def replaceAddress [MediaStream σ] (s : Session σ) (l : Leg) (address : String)
    (sdp : Description) : Description × Outcome Unit :=
  redirect address (s.ports l) sdp

/-! ## Alternate sources -/

/-- The session after the alternate source of a leg in a pair was replaced. -/
def setAlternate (s : Session σ) (l : Leg) (index : Nat) (feed : Option Audio.Feed) :
    Session σ × Outcome Unit :=
  match s.pairs[index]? with
  | none => (s, .error (.mediaLineNotFound index))
  | some p =>
    let (p, closed) := p.setAlternate l feed
    ({ s with pairs := s.pairs.set index p, retired := s.retired ++ closed.toList }, .ok ())

/-- The session after a leg in a pair was given a ring buffer as its alternate source. -/
def attachBuffered (x : Surroundings σ) (s : Session σ) (l : Leg) (index serial : Nat) :
    Session σ × Outcome Unit :=
  s.setAlternate l index
    (some ⟨serial, .buffered (Buffer.Ring.ofCapacity x.settings.alternateBufferSize)⟩)

/-- The pairs after a writer wrote to the alternate source with a serial number, and what the write
did, if the source is in use in one of them. -/
def writePairAlternate (serial : Nat) (data : List UInt8) :
    List (Pair σ) → Option (List (Pair σ) × Outcome Buffer.Written)
  | [] => none
  | p :: rest =>
    match p.writeAlternate serial data with
    | some (p, written) => some (p :: rest, written)
    | none => (writePairAlternate serial data rest).map fun (rest, written) => (p :: rest, written)

/-- The session after a writer wrote to the alternate source with a serial number, and what the
write did, if the source is in use. -/
def writeAlternate (s : Session σ) (serial : Nat) (data : List UInt8) :
    Option (Session σ × Outcome Buffer.Written) :=
  (writePairAlternate serial data s.pairs).map fun (pairs, written) =>
    ({ s with pairs }, written)

/-! ## Processing -/

/-- The pairs after a frame was moved to both legs of one after the other, the scratch buffer, and
the first failure. -/
def writePairs [MediaStream σ] (now : Nat) (ts : UInt64) :
    List (Pair σ) → List UInt8 → List (Pair σ) × List UInt8 × Outcome Unit
  | [], scratch => ([], scratch, .ok ())
  | p :: rest, scratch =>
    match p.tick now ts scratch with
    | (p, scratch, .error f) => (p :: rest, scratch, .error f)
    | (p, scratch, .ok ()) =>
      let (rest, scratch, r) := writePairs now ts rest scratch
      (p :: rest, scratch, r)

/-- The session after the frames that are due were moved, the scratch buffer, and the first
failure. -/
def writeStreams [MediaStream σ] (s : Session σ) (now : Nat) (ts : UInt64) (scratch : List UInt8) :
    Session σ × List UInt8 × Outcome Unit :=
  let (pairs, scratch, r) := writePairs now ts s.pairs scratch
  ({ s with pairs }, scratch, r)

/-- The session after the key presses of a leg in a pair were posted to that leg. -/
def postKeys (s : Session σ) (l : Leg) (events : List Dtmf.Event) : Session σ :=
  events.foldl (fun s e => s.post l (.key e)) s

/-- The session after all completed key presses were posted. -/
def processKeys (s : Session σ) : Session σ :=
  let drained := s.pairs.map fun p =>
    let (p, a) := p.drainKeys .a
    let (p, b) := p.drainKeys .b
    (p, a, b)
  (drained.map (·.2)).foldl (fun s events => (s.postKeys .a events.1).postKeys .b events.2)
    { s with pairs := drained.map (·.1) }

/-- The session after a datagram came in for the stream of a leg on a port. -/
def deliver [MediaStream σ] (s : Session σ) (now : Nat) (l : Leg) (port : UInt16)
    (data : List UInt8) : Session σ :=
  { s with pairs := s.pairs.map fun p => if p.port l = port then p.deliver now l data else p }

/-- The session with the time without received packets started anew on all streams. -/
def clearTimeout [MediaStream σ] (s : Session σ) (now : Nat) : Session σ :=
  { s with pairs := s.pairs.map (·.clearTimeout now) }

/-! ## The scheduler's notices -/

/-- The session after a worker took it up. -/
def started (s : Session σ) : Session σ := { s with processing := true }

/-- The session after a worker let go of it without ending it. -/
def suspended (s : Session σ) : Session σ := { s with processing := false }

/-- The session after processing of it failed. -/
def failed (s : Session σ) (reason : String) : Session σ := s.postBoth (.failed reason)

/-- The session after the scheduler's reference was given back and the legs were told. -/
def surrender [MediaStream σ] (s : Session σ) : Session σ :=
  ({ s with scheduled := false }.postBoth .terminated).giveBack

/-- The session after the scheduler let go of it for good. Only the first time the scheduler's
reference is given back. -/
def terminated [MediaStream σ] (s : Session σ) : Session σ :=
  let s := s.suspended.clearAudio
  if s.scheduled then s.surrender else s

/-- The session after it was stopped. `known` tells whether the scheduler knows it: if so its
worker will end it, and otherwise it ends here. -/
def stop [MediaStream σ] (s : Session σ) (known : Bool) : Session σ :=
  let ended := { { s with stopped := true }.clearAudio with registered := false }
  if s.registered && !known then ended.terminated else ended

/-! ## Laws -/

theorem foldl_dropPair [MediaStream σ] (ps : List (Pair σ)) (s : Session σ) :
    (ps.foldl dropPair s).scheduled = s.scheduled ∧
      (ps.foldl dropPair s).processing = s.processing ∧
      (ps.foldl dropPair s).pairs = s.pairs := by
  induction ps generalizing s with
  | nil => simp
  | cons p ps ih =>
    rw [List.foldl_cons]
    exact ih _

@[simp] theorem scheduled_clearAudio [MediaStream σ] (s : Session σ) :
    s.clearAudio.scheduled = s.scheduled := (foldl_dropPair _ _).1

@[simp] theorem processing_clearAudio [MediaStream σ] (s : Session σ) :
    s.clearAudio.processing = s.processing := (foldl_dropPair _ _).2.1

@[simp] theorem pairs_clearAudio [MediaStream σ] (s : Session σ) : s.clearAudio.pairs = [] :=
  (foldl_dropPair _ _).2.2

theorem clearAudio_of_nil [MediaStream σ] {s : Session σ} (h : s.pairs = []) :
    s.clearAudio = s := by
  unfold clearAudio
  rw [h]
  cases s
  simp_all

theorem giveBack_eq [MediaStream σ] (s : Session σ) :
    s.giveBack = if s.references = 1 then { s with references := s.references - 1 }.finalize
      else { s with references := s.references - 1 } := by
  unfold giveBack releaseReference
  by_cases h : s.references = 1 <;> simp [h]

theorem giveBack_of_nil [MediaStream σ] {s : Session σ} (h : s.pairs = []) :
    s.giveBack.scheduled = s.scheduled ∧ s.giveBack.processing = s.processing ∧
      s.giveBack.pairs = [] := by
  rw [giveBack_eq]
  unfold finalize
  split
  · split
    · simp [h]
    · rw [tearDown, clearAudio_of_nil (by simpa using h)]
      simp [h]
  · simp [h]

theorem suspended_of_idle {s : Session σ} (h : s.processing = false) : s.suspended = s := by
  cases s
  simp_all [suspended]

theorem terminated_of_idle [MediaStream σ] {s : Session σ} (hp : s.pairs = [])
    (hs : s.scheduled = false) (hr : s.processing = false) : s.terminated = s := by
  simp only [terminated, suspended_of_idle hr, clearAudio_of_nil hp, hs, Bool.false_eq_true,
    if_false]

theorem terminated_terminated [MediaStream σ] (s : Session σ) :
    s.terminated.terminated = s.terminated := by
  have hp := pairs_clearAudio s.suspended
  have hr := processing_clearAudio s.suspended
  unfold terminated
  by_cases h : s.suspended.clearAudio.scheduled = true
  · have g := giveBack_of_nil
      (s := { s.suspended.clearAudio with scheduled := false }.postBoth .terminated) hp
    simp only [h, if_true]
    exact terminated_of_idle g.2.2 g.1 (g.2.1.trans hr)
  · have h' : s.suspended.clearAudio.scheduled = false := by simpa using h
    simp only [h', Bool.false_eq_true, if_false]
    exact terminated_of_idle hp h' hr

end Session

end CallBridge.Bridge
