import CallBridge.Proofs.Bridge.Registrations
import CallBridge.Proofs.Bridge.ScratchRuns

/-!
# Sessions cannot look into their streams

A bridge knows its streams only through what it asks of them. So a map of streams that respects
everything that may be asked respects whatever a session does: it makes no difference whether the
streams of a session are mapped before something happens to the session or after that.

In this way streams can be watched. A stream that keeps a record of what is read from it is mapped
to the stream that it records by leaving out the record, and what is proved of sessions with
recorded streams tells about all sessions.

Results:
* `map_setRelay`, `map_initLeg`, `map_writeLeg`, `map_deliver`: what is done to one pair.
* `map_updated`, `map_writeStreams`, `map_terminated`, `map_stop`: what is done to a session.
* `processKeys_eq`: what collecting the key presses of all pairs does.
* `map_meet`: whatever happens to a session.
-/

namespace CallBridge

/-- The values changed by a function. -/
def PerLeg.map {α β : Type} (f : α → β) (p : PerLeg α) : PerLeg β := ⟨f p.a, f p.b⟩

namespace Rtp

variable {τ σ : Type} [MediaStream τ] [MediaStream σ]

/-- A map of streams respects everything that is asked of them. -/
structure StreamMap (f : τ → σ) : Prop where
  port : ∀ s, MediaStream.port (f s) = MediaStream.port s
  hasSocket : ∀ s, MediaStream.hasSocket (f s) = MediaStream.hasSocket s
  frameSize : ∀ s, MediaStream.frameSize (f s) = MediaStream.frameSize s
  sampleRate : ∀ s, MediaStream.sampleRate (f s) = MediaStream.sampleRate s
  pollSend : ∀ s ts size,
    MediaStream.pollSend (f s) ts size = (MediaStream.pollSend s ts size).map f id
  pollRead : ∀ s ts size,
    MediaStream.pollRead (f s) ts size = (MediaStream.pollRead s ts size).map f id
  read : ∀ s now out, MediaStream.read (f s) now out = (MediaStream.read s now out).map f id
  put : ∀ s pcm, MediaStream.put (f s) pcm = (MediaStream.put s pcm).map f id
  enableRelay : ∀ s mask peer,
    MediaStream.enableRelay (f s) mask peer = (MediaStream.enableRelay s mask peer).map f id
  disableRelay : ∀ s, MediaStream.disableRelay (f s) = f (MediaStream.disableRelay s)
  relay : ∀ s packet, MediaStream.relay (f s) packet = (MediaStream.relay s packet).map f id
  negotiate : ∀ s now ours theirs line, MediaStream.negotiate (f s) now ours theirs line =
    (MediaStream.negotiate s now ours theirs line).map f id
  setPlayout : ∀ s now mode,
    MediaStream.setPlayout (f s) now mode = f (MediaStream.setPlayout s now mode)
  receive : ∀ s now peerExists data, MediaStream.receive (f s) now peerExists data =
    (MediaStream.receive s now peerExists data).map f id
  clearTimeout : ∀ s now, MediaStream.clearTimeout (f s) now = f (MediaStream.clearTimeout s now)

end Rtp

namespace Bridge

open Rtp (MediaStream Receiver StreamMap)
open Sdp (Description Media)

variable {τ σ : Type}

/-! ## Pairs -/

/-- The media of a leg with its stream mapped. -/
def LegMedia.map (f : τ → σ) (m : LegMedia τ) : LegMedia σ :=
  ⟨f m.stream, m.initialized, m.alternate, m.detector⟩

/-- The completed key presses of a leg that wait. -/
def LegMedia.waiting (m : LegMedia σ) : List Dtmf.Event := m.detector.elim [] (·.events)

namespace Pair

/-- The pair with its streams mapped. -/
def map (f : τ → σ) (p : Pair τ) : Pair σ := ⟨p.legs.map (LegMedia.map f), p.playout⟩

section

variable (f : τ → σ) (p : Pair τ) (l : Leg)

theorem leg_map : (p.map f).leg l = (p.leg l).map f := by cases l <;> rfl

theorem stream_map : (p.map f).stream l = f (p.stream l) := by cases l <;> rfl

theorem alternate_map : ((p.map f).leg l).alternate = (p.leg l).alternate := by cases l <;> rfl

theorem detector_map : ((p.map f).leg l).detector = (p.leg l).detector := by cases l <;> rfl

theorem isInitialized_map : (p.map f).isInitialized l = p.isInitialized l := by cases l <;> rfl

theorem isLinked_map : (p.map f).isLinked l = p.isLinked l := by
  rw [isLinked, isLinked, isInitialized_map, isInitialized_map, hasAlternate, hasAlternate,
    alternate_map]

theorem map_setLeg (m : LegMedia τ) : (p.map f).setLeg l (m.map f) = (p.setLeg l m).map f := by
  cases l <;> rfl

theorem map_setStream (s : τ) : (p.map f).setStream l (f s) = (p.setStream l s).map f := by
  cases l <;> rfl

theorem map_modifyStream {g : τ → τ} {g' : σ → σ} (hg : ∀ s, g' (f s) = f (g s)) :
    (p.map f).modifyStream l g' = (p.modifyStream l g).map f := by
  rw [modifyStream, stream_map, hg, map_setStream]
  rfl

theorem map_resetLeg : (p.map f).resetLeg l = (p.resetLeg l).map (map f) id := by
  cases l <;> rfl

theorem map_setAlternate (feed : Option Audio.Feed) :
    (p.map f).setAlternate l feed = (p.setAlternate l feed).map (map f) id := by
  cases l <;> rfl

theorem map_writeAlternate (serial : Nat) (data : List UInt8) :
    (p.map f).writeAlternate serial data =
      (p.writeAlternate serial data).map (Prod.map (map f) id) := by
  rw [writeAlternate, writeAlternate, List.map_findSome?]
  congr 1
  funext k
  rw [alternate_map, Function.comp_apply]
  cases (p.leg k).alternate with
  | none => rfl
  | some feed =>
    dsimp only
    split
    · cases k <;> rfl
    · rfl

theorem map_drainKeys : (p.map f).drainKeys l = (p.drainKeys l).map (map f) id := by
  rw [drainKeys, drainKeys, detector_map]
  cases (p.leg l).detector with
  | none => rfl
  | some d => cases l <;> rfl

end

/-! ### Key presses -/

/-- The completed key presses of a leg that wait in a pair. -/
def waiting (p : Pair σ) (l : Leg) : List Dtmf.Event := (p.leg l).waiting

/-- The pair without the completed key presses of both legs. -/
def drained (p : Pair σ) : Pair σ := ((p.drainKeys .a).1.drainKeys .b).1

theorem drainKeys_snd (p : Pair σ) (l : Leg) : (p.drainKeys l).2 = p.waiting l := by
  rw [drainKeys, waiting, LegMedia.waiting]
  cases (p.leg l).detector <;> rfl

theorem drainKeys_fst (p : Pair σ) (l : Leg) : (p.drainKeys l).1 = p.setLeg l
    { p.leg l with detector := (p.leg l).detector.map fun d => d.drain.1 } := by
  cases hd : (p.leg l).detector with
  | none =>
    have hsame : p.setLeg l (p.leg l) = p := by rw [setLeg, leg, PerLeg.set_get_self]
    rw [Option.map_none, ← hd, hsame]
    simp only [drainKeys, hd]
  | some d => simp only [drainKeys, hd, Option.map_some]

theorem leg_drained (p : Pair σ) (l : Leg) : p.drained.leg l =
    { p.leg l with detector := (p.leg l).detector.map fun d => d.drain.1 } := by
  rw [drained, drainKeys_fst, drainKeys_fst]
  cases l <;> rfl

theorem waiting_drainKeys (p : Pair σ) (l : Leg) :
    (p.drainKeys l).1.waiting l.opposite = p.waiting l.opposite := by
  rw [drainKeys_fst, waiting, leg_setLeg_opposite, waiting]

theorem waiting_map (f : τ → σ) (p : Pair τ) (l : Leg) : (p.map f).waiting l = p.waiting l := by
  rw [waiting, waiting, LegMedia.waiting, LegMedia.waiting, detector_map]

theorem map_drained (f : τ → σ) (p : Pair τ) : (p.map f).drained = p.drained.map f := by
  rw [drained, map_drainKeys]
  dsimp only [Prod.map]
  rw [map_drainKeys]
  rfl

variable [MediaStream τ] [MediaStream σ] {f : τ → σ} (hf : StreamMap f)

include hf

theorem map_attach (r : Receiver) (s : τ) : attach r (f s) = attach r s := by
  rw [attach, attach, hf.hasSocket, hf.port]

theorem map_reattach (r : Receiver) (s : τ) : reattach r (f s) = reattach r s := by
  rw [reattach, reattach, hf.port, map_attach hf]

theorem map_create (a b : τ) (playout : Playout.Mode) (r : Receiver) :
    create (f a) (f b) playout r = (create a b playout r).map id (Except.map (map f)) := by
  rw [create, create, map_attach hf]
  rcases attach r a with ⟨r, e | u⟩
  · rfl
  · dsimp only
    rw [map_attach hf]
    rcases attach r b with ⟨r, e | u⟩ <;> rfl

theorem map_relayStream (s : τ) (peer : UInt16) (media : Media) :
    relayStream (f s) peer media = f (relayStream s peer media) := by
  rw [relayStream, relayStream, hf.disableRelay, hf.enableRelay]
  split
  · rfl
  · rcases MediaStream.enableRelay s media.mask peer with ⟨s, e | u⟩
    · exact hf.disableRelay s
    · rfl

theorem map_setRelay (p : Pair τ) (r : Receiver) (l : Leg) (media : Media) :
    (p.map f).setRelay r l media = (p.setRelay r l media).map (map f) id := by
  rw [setRelay, setRelay, port, port, stream_map, stream_map, hf.port, hf.port, hf.hasSocket,
    map_relayStream hf, map_setStream]
  dsimp only
  split <;> rfl

theorem map_initLeg (p : Pair τ) (r : Receiver) (now : Nat) (l : Leg) (detects : Bool)
    (ours theirs : Description) (line : Nat) :
    (p.map f).initLeg r now l detects ours theirs line =
      (p.initLeg r now l detects ours theirs line).map (map f) id := by
  rw [initLeg, initLeg, stream_map, show (p.map f).playout = p.playout from rfl, hf.setPlayout,
    hf.negotiate]
  rcases MediaStream.negotiate (MediaStream.setPlayout (p.stream l) now p.playout) now ours theirs
    line with ⟨s, e | u⟩
  · dsimp only [Prod.map, id]
    rw [map_setStream]
  · dsimp only [Prod.map, id]
    rw [map_reattach hf]
    rcases reattach r s with ⟨r, e | u⟩
    · dsimp only
      rw [map_setStream]
    · dsimp only
      rw [hf.sampleRate]
      cases l <;> rfl

/-! ### Moving audio -/

theorem map_listen (m : LegMedia τ) (now : Nat) (ts : UInt64) (frame : List UInt8) :
    (m.map f).listen now ts frame = (m.listen now ts frame).map (LegMedia.map f) id := by
  rw [LegMedia.listen, LegMedia.listen, show (m.map f).stream = f m.stream from rfl, hf.read]
  rcases MediaStream.read m.stream now frame with ⟨s, frame', e | got⟩ <;> rfl

theorem map_gate (p : Pair τ) (l : Leg) (ts : UInt64) (size : Nat) :
    (p.map f).gate l ts size = (p.gate l ts size).map (map f) id := by
  rw [gate, gate, isLinked_map, stream_map, hf.pollSend]
  split
  · rcases MediaStream.pollSend (p.stream l) ts size with ⟨s, due⟩
    dsimp only [Prod.map, id]
    rw [map_setStream]
  · rfl

theorem map_fetch (p : Pair τ) (now : Nat) (l : Leg) (ts : UInt64) (frame : List UInt8) :
    (p.map f).fetch now l ts frame = (p.fetch now l ts frame).map (map f) id := by
  rw [fetch, fetch, alternate_map]
  cases (p.leg l).alternate with
  | some feed => cases l <;> rfl
  | none =>
    rw [stream_map, hf.pollRead]
    rcases MediaStream.pollRead (p.stream l.opposite) ts frame.length with ⟨s, due⟩
    dsimp only [Prod.map, id]
    rw [map_setStream]
    cases due with
    | false => rfl
    | true =>
      simp only [if_true]
      rw [leg_map, map_listen hf]
      dsimp only [Prod.map, id]
      rw [map_setLeg]

theorem map_put (p : Pair τ) (l : Leg) (pcm : List UInt8) :
    (p.map f).put l pcm = (p.put l pcm).map (map f) id := by
  rw [put, put, stream_map, hf.put]
  dsimp only [Prod.map, id]
  rw [map_setStream]

theorem map_move (p : Pair τ) (now : Nat) (l : Leg) (ts : UInt64) (size : Nat)
    (scratch : List UInt8) :
    (p.map f).move now l ts size scratch = (p.move now l ts size scratch).map (map f) id := by
  rw [move, move, map_fetch hf]
  rcases p.fetch now l ts (scratch.take size) with ⟨p, frame, e | got⟩
  · rfl
  · cases got with
    | zero => rfl
    | succ n =>
      dsimp only [Prod.map, id]
      rw [map_put hf]
      rfl

theorem map_writeLeg (p : Pair τ) (now : Nat) (l : Leg) (ts : UInt64) (scratch : List UInt8) :
    (p.map f).writeLeg now l ts scratch = (p.writeLeg now l ts scratch).map (map f) id := by
  have hsize : (p.map f).sizeFor l scratch.length = p.sizeFor l scratch.length := by
    rw [sizeFor, sizeFor, stream_map, hf.frameSize]
  rw [writeLeg_eq, writeLeg_eq, hsize]
  dsimp only
  rw [map_gate hf]
  rcases p.gate l ts (p.sizeFor l scratch.length) with ⟨p', due⟩
  cases due with
  | false => rfl
  | true => exact map_move hf p' now l ts _ scratch

theorem map_tick (p : Pair τ) (now : Nat) (ts : UInt64) (scratch : List UInt8) :
    (p.map f).tick now ts scratch = (p.tick now ts scratch).map (map f) id := by
  rw [tick, tick, map_writeLeg hf]
  rcases p.writeLeg now .a ts scratch with ⟨p', scratch', e | n⟩
  · rfl
  · dsimp only [Prod.map, id_eq]
    rw [map_writeLeg hf]
    rcases p'.writeLeg now .b ts scratch' with ⟨p'', scratch'', e | n⟩ <;> rfl

theorem map_deliver (p : Pair τ) (now : Nat) (l : Leg) (data : List UInt8) :
    (p.map f).deliver now l data = (p.deliver now l data).map f := by
  rw [deliver, deliver, stream_map, hf.receive]
  rcases MediaStream.receive (p.stream l) now true data with ⟨s, _ | packet⟩
  · dsimp only [Prod.map, id]
    rw [map_setStream]
  · dsimp only [Prod.map, id]
    rw [map_setStream]
    exact map_modifyStream f _ _ fun s => congrArg Prod.fst (hf.relay s packet)

theorem map_clearTimeout (p : Pair τ) (now : Nat) :
    (p.map f).clearTimeout now = (p.clearTimeout now).map f := by
  rw [clearTimeout, map_modifyStream f _ _ fun s => hf.clearTimeout s now,
    map_modifyStream f _ _ fun s => hf.clearTimeout s now]
  rfl

theorem map_clearLeg (p : Pair τ) (r : Receiver) (l : Leg) :
    (p.map f).clearLeg r l = (p.clearLeg r l).map (map f) id := by
  rw [clearLeg, clearLeg, stream_map, alternate_map, hf.hasSocket, hf.port, hf.disableRelay]
  cases l <;> rfl

theorem map_clear (p : Pair τ) (r : Receiver) :
    (p.map f).clear r = (p.clear r).map (map f) id := by
  rw [clear, clear, map_clearLeg hf]
  rcases p.clearLeg r .a with ⟨p, r, feed⟩
  dsimp only [Prod.map, id]
  rw [map_clearLeg hf]
  rfl

end Pair

/-! ## Sessions -/

/-- The surroundings of sessions with their streams mapped. -/
def Surroundings.map (f : τ → σ) (x : Surroundings τ) : Surroundings σ :=
  ⟨x.settings, fun n l => (x.allocate n l).map f⟩

namespace Session

/-- The session with its streams mapped, those included that were released. -/
def map (f : τ → σ) (s : Session τ) : Session σ where
  id := s.id
  callgroup := s.callgroup
  detects := s.detects
  localSdp := s.localSdp
  remoteSdp := s.remoteSdp
  pairs := s.pairs.map (Pair.map f)
  registered := s.registered
  stopped := s.stopped
  references := s.references
  scheduled := s.scheduled
  processing := s.processing
  finalized := s.finalized
  teardowns := s.teardowns
  submissions := s.submissions
  requests := s.requests
  receiver := s.receiver
  posted := s.posted
  released := s.released.map fun r => (r.1, f r.2)
  retired := s.retired

/-! ### Giving up -/

-- `id` is the identifier of a session here, so the function is written out below.
section

variable [MediaStream τ] [MediaStream σ] {f : τ → σ} (hf : StreamMap f)

include hf

theorem map_dropPair (s : Session τ) (p : Pair τ) :
    (s.map f).dropPair (p.map f) = (s.dropPair p).map f := by
  rw [dropPair, dropPair, show (s.map f).receiver = s.receiver from rfl, Pair.map_clear hf]
  rcases p.clear s.receiver with ⟨p', r, feeds⟩
  have hreleased : Leg.both.map (fun l => (l, (p'.map f).stream l)) =
      (Leg.both.map fun l => (l, p'.stream l)).map fun r => (r.1, f r.2) := rfl
  simp only [Prod.map, id_eq, map, List.map_append, hreleased]

theorem map_dropPairs (ps : List (Pair τ)) (s : Session τ) :
    (ps.map (Pair.map f)).foldl dropPair (s.map f) = (ps.foldl dropPair s).map f := by
  induction ps generalizing s with
  | nil => rfl
  | cons p ps ih =>
    rw [List.map_cons, List.foldl_cons, List.foldl_cons, map_dropPair hf, ih]

theorem map_clearAudio (s : Session τ) : (s.map f).clearAudio = s.clearAudio.map f :=
  map_dropPairs hf s.pairs { s with pairs := [] }

theorem map_finalize (s : Session τ) : (s.map f).finalize = s.finalize.map f := by
  rw [finalize, finalize, show (s.map f).finalized = s.finalized from rfl]
  split
  · rfl
  · exact congrArg (fun t : Session σ => { t with teardowns := s.teardowns + 1 })
      (map_clearAudio hf { s with finalized := true })

theorem map_giveBack (s : Session τ) : (s.map f).giveBack = s.giveBack.map f := by
  rw [giveBack_eq, giveBack_eq, show (s.map f).references = s.references from rfl]
  split
  · exact map_finalize hf { s with references := s.references - 1 }
  · rfl

theorem map_terminated (s : Session τ) : (s.map f).terminated = s.terminated.map f := by
  have hclear : (s.map f).suspended.clearAudio = s.suspended.clearAudio.map f :=
    map_clearAudio hf s.suspended
  rw [terminated_eq, terminated_eq, show (s.map f).scheduled = s.scheduled from rfl]
  split
  · rw [surrendered, hclear]
    exact map_giveBack hf s.surrendered
  · exact hclear

theorem map_stop (s : Session τ) (known : Bool) : (s.map f).stop known = (s.stop known).map f := by
  have hhalted : (s.map f).halted = s.halted.map f := by
    rw [halted, halted]
    exact congrArg (fun s : Session σ => { s with registered := false })
      (map_clearAudio hf { s with stopped := true })
  rw [stop_eq, stop_eq, hhalted, show (s.map f).registered = s.registered from rfl]
  split
  · exact map_terminated hf s.halted
  · rfl

/-! ### Descriptions -/

theorem map_enlist (s : Session τ) (admitted : Bool) :
    (s.map f).enlist admitted = (s.enlist admitted).map f := by
  rw [enlist, enlist, show (s.map f).isReady = s.isReady from rfl]
  split
  · cases admitted with
    | true => rfl
    | false => exact map_giveBack hf s.refused
  · rfl

variable (x : Surroundings τ)

omit [MediaStream τ] [MediaStream σ] hf in
theorem map_allocate (s : Session τ) (l : Leg) :
    (s.map f).allocate (x.map f) l = (s.allocate x l).map (map f) (Except.map f) := rfl

theorem map_createPair (s : Session τ) :
    (s.map f).createPair (x.map f) =
      (s.createPair x).map (map f) (Except.map (Pair.map f)) := by
  rw [createPair, createPair, map_allocate]
  rcases s.allocate x .a with ⟨s, e | a⟩
  · rfl
  · dsimp only [Prod.map, Except.map]
    rw [map_allocate]
    rcases s.allocate x .b with ⟨s, e | b⟩
    · simp only [Prod.map, Except.map, map, List.map_append, List.map_singleton]
    · dsimp only [Prod.map, Except.map]
      rw [show (x.map f).settings = x.settings from rfl,
        show (s.map f).receiver = s.receiver from rfl, Pair.map_create hf]
      rcases Pair.create a b x.settings.playout s.receiver with ⟨r, e | p⟩
      · simp only [Prod.map, Except.map, id_eq, map, List.map_append, List.map_cons, List.map_nil]
      · rfl

theorem map_ensurePair (s : Session τ) (index : Nat) :
    (s.map f).ensurePair (x.map f) index = (s.ensurePair x index).map (map f) (fun r => r) := by
  rw [ensurePair, ensurePair, map_createPair hf,
    show (s.map f).pairs.length = s.pairs.length from List.length_map _]
  split
  · rcases s.createPair x with ⟨s', e | p⟩
    · rfl
    · simp only [Prod.map, Except.map, map, List.map_append, List.map_singleton]
  · rfl

omit [MediaStream τ] [MediaStream σ] hf in
theorem map_modifyPair (s : Session τ) (index : Nat) {g : Change τ} {g' : Change σ}
    (hg : ∀ p r, g' (p.map f) r = (g p r).map (Pair.map f) (fun r => r)) :
    (s.map f).modifyPair index g' = (s.modifyPair index g).map f := by
  rw [modifyPair, modifyPair,
    show (s.map f).pairs[index]? = s.pairs[index]?.map (Pair.map f) from List.getElem?_map ..]
  cases s.pairs[index]? with
  | none => rfl
  | some p =>
    dsimp only [Option.map]
    rw [hg, show (s.map f).receiver = s.receiver from rfl]
    simp only [Prod.map, map, List.map_set]

theorem map_renegotiate (now : Nat) (l : Leg) (detects : Bool) (ours theirs : Description)
    (line : Nat) (p : Pair τ) (r : Receiver) :
    renegotiate now l detects ours theirs line (p.map f) r =
      (renegotiate now l detects ours theirs line p r).map (Pair.map f) (fun r => r) := by
  rw [renegotiate, renegotiate, Pair.map_resetLeg]
  dsimp only [Prod.map, id_eq]
  rw [Pair.map_initLeg hf]
  rfl

theorem map_applyLine (now : Nat) (l : Leg) (detects : Bool) (ours theirs : Description)
    (line : Nat) (media : Media) (p : Pair τ) (r : Receiver) :
    applyLine now l detects ours theirs line media (p.map f) r =
      (applyLine now l detects ours theirs line media p r).map (Pair.map f) (fun r => r) := by
  rw [applyLine, applyLine, Pair.map_setRelay hf]
  rcases p.setRelay r l media with ⟨p', r'⟩
  dsimp only [Prod.map, id_eq]
  split
  · rw [Pair.map_resetLeg]
    rfl
  · exact map_renegotiate hf now l detects ours theirs line p' r'

theorem map_applyLines (now : Nat) (l : Leg) (theirs : Description) (lines : List (Nat × Media))
    (index : Nat) (s : Session τ) :
    applyLines (x.map f) now l theirs lines index (s.map f) =
      (applyLines x now l theirs lines index s).map (map f) (fun r => r) := by
  induction lines generalizing index s with
  | nil => rfl
  | cons first rest ih =>
    obtain ⟨line, media⟩ := first
    rw [applyLines, applyLines, map_ensurePair hf]
    rcases s.ensurePair x index with ⟨s', e | u⟩
    · rfl
    · dsimp only [Prod.map, id_eq]
      rw [map_modifyPair _ _ fun p r => map_applyLine hf now l _ _ theirs line media p r]
      exact ih _ _

theorem map_applyLocal (now : Nat) (l : Leg) (ours theirs : Description) (lines : List Nat)
    (index : Nat) (s : Session τ) :
    applyLocal now l ours theirs lines index (s.map f) =
      (applyLocal now l ours theirs lines index s).map f := by
  induction lines generalizing index s with
  | nil => rfl
  | cons line rest ih =>
    rw [applyLocal, applyLocal,
      map_modifyPair _ _ fun p r => map_renegotiate hf now l _ ours theirs line p r]
    exact ih _ _

theorem map_described (s : Session τ) (u : Update) :
    (s.map f).described (x.map f) u = (s.described x u).map f := by
  cases u with
  | localSdp now l sdp =>
    rw [described, described, show (s.map f).remoteSdp = s.remoteSdp from rfl]
    split
    · rfl
    · exact map_applyLocal hf now l _ _ _ 0 { s with localSdp := s.localSdp.set l sdp.normal }
  | remoteSdp now l sdp =>
    exact congrArg Prod.fst (map_applyLines hf x now l _ _ 0
      { s with remoteSdp := s.remoteSdp.set l sdp.normal })

theorem map_updated (s : Session τ) (admitted : Bool) (u : Update) :
    (s.map f).updated (x.map f) admitted u = (s.updated x admitted u).map f := by
  rw [updated_eq, updated_eq, show (s.map f).stopped = s.stopped from rfl]
  split
  · rfl
  · rw [map_described hf, map_enlist hf]

/-! ### Media -/

theorem map_writePairs (now : Nat) (ts : UInt64) (ps : List (Pair τ)) (scratch : List UInt8) :
    writePairs now ts (ps.map (Pair.map f)) scratch =
      (writePairs now ts ps scratch).map (List.map (Pair.map f)) (fun r => r) := by
  induction ps generalizing scratch with
  | nil => rfl
  | cons p ps ih =>
    rw [List.map_cons, writePairs, writePairs, Pair.map_tick hf]
    rcases p.tick now ts scratch with ⟨p', scratch', e | u⟩
    · rfl
    · dsimp only [Prod.map, id_eq]
      rw [ih]
      rfl

theorem map_writeStreams (s : Session τ) (now : Nat) (ts : UInt64) (scratch : List UInt8) :
    (s.map f).writeStreams now ts scratch =
      (s.writeStreams now ts scratch).map (map f) (fun r => r) := by
  rw [writeStreams, writeStreams, show (s.map f).pairs = s.pairs.map (Pair.map f) from rfl,
    map_writePairs hf]
  rfl

theorem map_deliver (s : Session τ) (now : Nat) (l : Leg) (port : UInt16) (data : List UInt8) :
    (s.map f).deliver now l port data = (s.deliver now l port data).map f := by
  have hport (p : Pair τ) : (p.map f).port l = p.port l := by
    rw [Pair.port, Pair.port, Pair.stream_map, hf.port]
  rw [deliver, deliver]
  simp only [map, List.map_map]
  congr 1
  refine List.map_congr_left fun p _ => ?_
  rw [Function.comp_apply, Function.comp_apply, hport]
  split
  · exact Pair.map_deliver hf p now l data
  · rfl

theorem map_clearTimeout (s : Session τ) (now : Nat) :
    (s.map f).clearTimeout now = (s.clearTimeout now).map f := by
  rw [clearTimeout, clearTimeout]
  simp only [map, List.map_map]
  congr 1
  exact List.map_congr_left fun p _ => Pair.map_clearTimeout hf p now

end

/-! ### Alternate sources and keys -/

section

variable (f : τ → σ) (s : Session τ)

theorem map_setAlternate (l : Leg) (index : Nat) (feed : Option Audio.Feed) :
    (s.map f).setAlternate l index feed =
      (s.setAlternate l index feed).map (map f) (fun r => r) := by
  rw [setAlternate, setAlternate,
    show (s.map f).pairs[index]? = s.pairs[index]?.map (Pair.map f) from List.getElem?_map ..]
  cases s.pairs[index]? with
  | none => rfl
  | some p =>
    dsimp only [Option.map]
    rw [Pair.map_setAlternate]
    simp only [Prod.map, id_eq, map, List.map_set]

theorem map_writePairAlternate (serial : Nat) (data : List UInt8) (ps : List (Pair τ)) :
    writePairAlternate serial data (ps.map (Pair.map f)) =
      (writePairAlternate serial data ps).map (Prod.map (List.map (Pair.map f)) (fun r => r)) := by
  induction ps with
  | nil => rfl
  | cons p ps ih =>
    rw [List.map_cons, writePairAlternate, writePairAlternate, Pair.map_writeAlternate, ih]
    cases p.writeAlternate serial data with
    | some r => rfl
    | none => cases writePairAlternate serial data ps <;> rfl

theorem map_writeAlternate (serial : Nat) (data : List UInt8) :
    (s.map f).writeAlternate serial data =
      (s.writeAlternate serial data).map (Prod.map (map f) (fun r => r)) := by
  rw [writeAlternate, writeAlternate, show (s.map f).pairs = s.pairs.map (Pair.map f) from rfl,
    map_writePairAlternate]
  cases writePairAlternate serial data s.pairs <;> rfl

end

/-! ### Key presses -/

/-- The completed key presses of a leg that wait in the pairs, pair by pair. -/
def waiting (s : Session σ) (l : Leg) : List Dtmf.Event := s.pairs.flatMap (·.waiting l)

theorem postKeys_eq (s : Session σ) (l : Leg) (events : List Dtmf.Event) :
    s.postKeys l events = { s with posted := s.posted.modify l (· ++ events.map .key) } := by
  induction events generalizing s with
  | nil => cases l <;> simp [postKeys, PerLeg.modify, PerLeg.set, PerLeg.get]
  | cons e events ih =>
    have hrest : s.postKeys l (e :: events) = (s.post l (.key e)).postKeys l events := rfl
    rw [hrest, ih, post]
    cases l <;> simp [PerLeg.modify, PerLeg.set, PerLeg.get]

theorem foldl_postKeys (ps : List (Pair σ)) (s : Session σ) :
    (ps.map fun p => (p.waiting .a, p.waiting .b)).foldl
        (fun s events => (s.postKeys .a events.1).postKeys .b events.2) s =
      { s with posted := ⟨s.posted.a ++ (ps.flatMap (·.waiting .a)).map .key,
        s.posted.b ++ (ps.flatMap (·.waiting .b)).map .key⟩ } := by
  induction ps generalizing s with
  | nil => simp
  | cons p ps ih =>
    rw [List.map_cons, List.foldl_cons, ih, postKeys_eq, postKeys_eq]
    simp [PerLeg.modify, PerLeg.set, PerLeg.get]

/-- Each leg is told of the key presses that wait in its own detectors, and they wait no more. -/
theorem processKeys_eq (s : Session σ) : s.processKeys = { s with
    pairs := s.pairs.map Pair.drained,
    posted := ⟨s.posted.a ++ (s.waiting .a).map .key,
      s.posted.b ++ (s.waiting .b).map .key⟩ } := by
  have hdrained (p : Pair σ) : ((p.drainKeys .a).2, ((p.drainKeys .a).1.drainKeys .b).2) =
      (p.waiting .a, p.waiting .b) := by
    rw [Pair.drainKeys_snd, Pair.drainKeys_snd, show Leg.b = Leg.a.opposite from rfl,
      Pair.waiting_drainKeys]
  have hposted := foldl_postKeys s.pairs { s with pairs := s.pairs.map Pair.drained }
  simp only [processKeys, List.map_map, Function.comp_def, hdrained]
  exact hposted

theorem waiting_map (f : τ → σ) (s : Session τ) (l : Leg) :
    (s.map f).waiting l = s.waiting l := by
  rw [waiting, waiting, map, List.flatMap_map]
  exact List.flatMap_congr fun p _ => Pair.waiting_map f p l

theorem map_processKeys (f : τ → σ) (s : Session τ) :
    (s.map f).processKeys = s.processKeys.map f := by
  rw [processKeys_eq, processKeys_eq, waiting_map, waiting_map]
  simp only [map, List.map_map, Function.comp_def, Pair.map_drained]

end Session

/-! ## Whatever happens -/

/-- What may happen to a session. -/
inductive Incident where
  /-- The session is held, described, stopped, called by its worker, or given up. -/
  | deed (d : Deed)
  /-- A worker moves the frames that are due. -/
  | tick (now : Nat) (ts : UInt64) (scratch : List UInt8)
  /-- A worker collects the completed key presses. -/
  | keys
  /-- A leg in a pair is given a ring buffer as its alternate source. -/
  | buffer (l : Leg) (index serial : Nat)
  /-- A writer writes to an alternate source. -/
  | fill (serial : Nat) (data : List UInt8)
  /-- A datagram comes in. -/
  | deliver (now : Nat) (l : Leg) (port : UInt16) (data : List UInt8)
  /-- The time without received packets starts anew. -/
  | clearTimeout (now : Nat)
  /-- The legs change their minds about whether they want to hear of keys. -/
  | detect (detects : PerLeg Bool)

namespace Session

/-- The session after a writer wrote to an alternate source, if the source is in use. -/
def filled (s : Session σ) (serial : Nat) (data : List UInt8) : Session σ :=
  (s.writeAlternate serial data).elim s (·.1)

theorem map_filled (f : τ → σ) (s : Session τ) (serial : Nat) (data : List UInt8) :
    (s.map f).filled serial data = (s.filled serial data).map f := by
  rw [filled, filled, map_writeAlternate]
  cases s.writeAlternate serial data <;> rfl

end Session

namespace Held

/-- The session after an incident. -/
def meet [MediaStream σ] (x : Surroundings σ) (h : Held σ) : Incident → Held σ
  | .deed d => h.perform x d
  | .tick now ts scratch => { h with session := (h.session.writeStreams now ts scratch).1 }
  | .keys => { h with session := h.session.processKeys }
  | .buffer l index serial => { h with session := (h.session.attachBuffered x l index serial).1 }
  | .fill serial data => { h with session := h.session.filled serial data }
  | .deliver now l port data => { h with session := h.session.deliver now l port data }
  | .clearTimeout now => { h with session := h.session.clearTimeout now }
  | .detect detects => { h with session := { h.session with detects } }

/-- The session after a run of incidents. -/
def meetAll [MediaStream σ] (x : Surroundings σ) (h : Held σ) (incidents : List Incident) :
    Held σ := incidents.foldl (meet x) h

/-- The session with its streams mapped. -/
def map (f : τ → σ) (h : Held τ) : Held σ := ⟨h.session.map f, h.handles⟩

variable [MediaStream τ] [MediaStream σ] {f : τ → σ} (hf : StreamMap f) (x : Surroundings τ)

include hf

theorem map_step (h : Held τ) (op : Operation) :
    (h.map f).step (x.map f) op = (h.step x op).map f := by
  cases op with
  | copy => exact (apply_ite (map f) (h.handles = 0) h ⟨h.session.addReference, _⟩).symm
  | drop =>
    rw [step, show (h.map f).session.giveBack = h.session.giveBack.map f from
      Session.map_giveBack hf h.session]
    exact (apply_ite (map f) (h.handles = 0) h ⟨h.session.giveBack, _⟩).symm
  | update u admitted =>
    exact congrArg (Held.mk · h.handles) (Session.map_updated hf x h.session admitted u)
  | stop known => exact congrArg (Held.mk · h.handles) (Session.map_stop hf h.session known)
  | terminated => exact congrArg (Held.mk · h.handles) (Session.map_terminated hf h.session)
  | _ => rfl

theorem map_perform (h : Held τ) (d : Deed) :
    (h.map f).perform (x.map f) d = (h.perform x d).map f := by
  cases d with
  | operation op => exact map_step hf x h op
  | alternate l index feed =>
    exact congrArg (fun r => Held.mk r.1 h.handles)
      (Session.map_setAlternate f h.session l index feed)
  | clearAudio => exact congrArg (Held.mk · h.handles) (Session.map_clearAudio hf h.session)
  | finalize => exact congrArg (Held.mk · h.handles) (Session.map_finalize hf h.session)

theorem map_meet (h : Held τ) (i : Incident) :
    (h.map f).meet (x.map f) i = (h.meet x i).map f := by
  cases i with
  | deed d => exact map_perform hf x h d
  | tick now ts scratch =>
    exact congrArg (fun r => Held.mk r.1 h.handles)
      (Session.map_writeStreams hf h.session now ts scratch)
  | keys => exact congrArg (Held.mk · h.handles) (Session.map_processKeys f h.session)
  | buffer l index serial =>
    exact congrArg (fun r => Held.mk r.1 h.handles)
      (Session.map_setAlternate f h.session l index _)
  | fill serial data =>
    exact congrArg (Held.mk · h.handles) (Session.map_filled f h.session serial data)
  | deliver now l port data =>
    exact congrArg (Held.mk · h.handles) (Session.map_deliver hf h.session now l port data)
  | clearTimeout now =>
    exact congrArg (Held.mk · h.handles) (Session.map_clearTimeout hf h.session now)
  | detect detects => rfl

end Held

end Bridge

end CallBridge
