import CallBridge.Proofs.Bridge.KeyTapes

/-!
# Who is told of which key presses

A session moves audio, collects key presses, and is described, given alternate sources and given up
in any order. Its streams are watched meanwhile, which makes no difference to it. At any time the
tapes of the streams explain the detectors of their legs, and the legs are told of exactly the key
presses that wait in their own detectors when key presses are collected.

Results:
* `Session.IsExplained.watch`: the tapes explain the detectors after an incident if they did before.
* `Held.keys_meet`: what a leg is told of by an incident.
* `key_attribution`: what follows for any run of incidents.
-/

namespace CallBridge.Bridge

open Rtp (MediaStream Receiver)
open Sdp (Description Media)

variable {σ : Type}

/-! ## Sessions -/

namespace Session

/-- What the detectors of all pairs are is explained by the tapes of their streams, and the session
knows what the legs wish. -/
structure IsExplained (wish : Leg → Bool → Prop) (s : Session (Watched σ)) : Prop where
  wishes : ∀ l, wish l (s.detects.get l)
  pairs : ∀ p ∈ s.pairs, p.IsExplained wish

/-- The session whose tapes note the key presses that wait. -/
def keysNoted (s : Session (Watched σ)) : Session (Watched σ) :=
  { s with pairs := s.pairs.map Pair.keysNoted }

theorem detects_foldl_dropPair [MediaStream σ] (ps : List (Pair σ)) (s : Session σ) :
    (ps.foldl dropPair s).detects = s.detects := by
  induction ps generalizing s with
  | nil => rfl
  | cons p ps ih => exact ih (s.dropPair p)

namespace IsExplained

variable {wish : Leg → Bool → Prop} {s : Session (Watched σ)}

theorem congr {t : Session (Watched σ)} (h : s.IsExplained wish) (hdetects : t.detects = s.detects)
    (hpairs : t.pairs = s.pairs) : t.IsExplained wish := by
  refine ⟨?_, ?_⟩
  · rw [hdetects]
    exact h.wishes
  · rw [hpairs]
    exact h.pairs

theorem set (h : s.IsExplained wish) (index : Nat) {q : Pair (Watched σ)}
    (hq : q.IsExplained wish) : ∀ p ∈ s.pairs.set index q, p.IsExplained wish := by
  intro p hp
  rcases List.mem_or_eq_of_mem_set hp with hp | rfl
  · exact h.pairs p hp
  · exact hq

theorem modifyPair (h : s.IsExplained wish) (index : Nat) {f : Change (Watched σ)}
    (hf : ∀ p r, p.IsExplained wish → (f p r).1.IsExplained wish) :
    (s.modifyPair index f).IsExplained wish := by
  unfold Session.modifyPair
  rcases hp : s.pairs[index]? with _ | p
  · exact h
  · exact ⟨h.wishes, h.set index (hf p s.receiver (h.pairs p (List.mem_of_getElem? hp)))⟩

theorem setAlternate (h : s.IsExplained wish) (l : Leg) (index : Nat)
    (feed : Option Audio.Feed) : (s.setAlternate l index feed).1.IsExplained wish := by
  unfold Session.setAlternate
  rcases hp : s.pairs[index]? with _ | p
  · exact h
  · have hreplaced := (h.pairs p (List.mem_of_getElem? hp)).setAlternate l feed
    exact ⟨h.wishes, h.set index hreplaced⟩

theorem writePairAlternate {ps : List (Pair (Watched σ))} (h : ∀ p ∈ ps, p.IsExplained wish)
    {serial : Nat} {data : List UInt8} {r : List (Pair (Watched σ)) × Outcome Buffer.Written}
    (hr : Session.writePairAlternate serial data ps = some r) :
    ∀ p ∈ r.1, p.IsExplained wish := by
  induction ps generalizing r with
  | nil => cases hr
  | cons p ps ih =>
    obtain ⟨hp, hps⟩ := List.forall_mem_cons.1 h
    rw [Session.writePairAlternate] at hr
    split at hr
    · next hwritten =>
      cases hr
      exact List.forall_mem_cons.2 ⟨hp.writeAlternate hwritten, hps⟩
    · obtain ⟨r', hr', rfl⟩ := Option.map_eq_some_iff.1 hr
      exact List.forall_mem_cons.2 ⟨hp, ih hps hr'⟩

theorem filled (h : s.IsExplained wish) (serial : Nat) (data : List UInt8) :
    (s.filled serial data).IsExplained wish := by
  rw [Session.filled, Session.writeAlternate]
  cases hr : Session.writePairAlternate serial data s.pairs with
  | none => exact h
  | some r => exact ⟨h.wishes, writePairAlternate h.pairs hr⟩

theorem mapPairs (h : s.IsExplained wish) {f : Pair (Watched σ) → Pair (Watched σ)}
    (hf : ∀ p, p.IsExplained wish → (f p).IsExplained wish) :
    IsExplained wish { s with pairs := s.pairs.map f } where
  wishes := h.wishes
  pairs := by
    intro q hq
    obtain ⟨p, hp, rfl⟩ := List.mem_map.1 hq
    exact hf p (h.pairs p hp)

theorem processKeys (h : s.IsExplained wish) : s.keysNoted.processKeys.IsExplained wish := by
  have hdrained := h.mapPairs fun p hp => hp.drained
  rw [processKeys_eq, keysNoted, List.map_map]
  exact ⟨hdrained.wishes, hdrained.pairs⟩

variable [MediaStream σ]

theorem enduring : Enduring fun s : Session (Watched σ) => s.IsExplained wish where
  of_same h hsame := h.congr hsame.detects hsame.pairs
  clearAudio h := by
    refine ⟨?_, ?_⟩
    · rw [clearAudio, detects_foldl_dropPair]
      exact h.wishes
    · rw [pairs_clearAudio]
      exact fun p hp => absurd hp List.not_mem_nil

theorem ensurePair (h : s.IsExplained wish) (x : Surroundings (Watched σ)) (index : Nat) :
    (s.ensurePair x index).1.IsExplained wish := by
  obtain ⟨hrewired, hpairs⟩ := createPair_frame x s
  have hopened := (createPair_cases x s).2
  have hcreate : (s.createPair x).1.IsExplained wish := h.congr hrewired.detects hpairs
  unfold Session.ensurePair
  split
  · rcases hp : s.createPair x with ⟨s', f | p⟩ <;> rw [hp] at hcreate hopened
    · exact hcreate
    · have hnew : p.IsExplained wish := .of_opened (hopened p rfl)
      refine ⟨hcreate.wishes, fun q hq => ?_⟩
      rcases List.mem_append.1 hq with hq | hq
      · exact hcreate.pairs q hq
      · rw [List.mem_singleton.1 hq]
        exact hnew
  · exact h

theorem applyLines (h : s.IsExplained wish) (x : Surroundings (Watched σ)) (now : Nat) (l : Leg)
    (theirs : Description) (lines : List (Nat × Media)) (index : Nat) :
    (Session.applyLines x now l theirs lines index s).1.IsExplained wish := by
  induction lines generalizing index s with
  | nil => exact h
  | cons entry rest ih =>
    have hready := h.ensurePair x index
    rw [Session.applyLines]
    rcases hensure : s.ensurePair x index with ⟨ready, f | u⟩ <;> rw [hensure] at hready
    · exact hready
    · exact ih (hready.modifyPair index fun p r hp =>
        hp.applyLine (hready.wishes l) now _ theirs entry.1 entry.2 r) (index + 1)

theorem applyLocal (h : s.IsExplained wish) (now : Nat) (l : Leg) (ours theirs : Description)
    (lines : List Nat) (index : Nat) :
    (Session.applyLocal now l ours theirs lines index s).IsExplained wish := by
  induction lines generalizing index s with
  | nil => exact h
  | cons line rest ih =>
    exact ih (h.modifyPair index fun p r hp =>
      hp.renegotiate (h.wishes l) now ours theirs line r) (index + 1)

theorem updated (h : s.IsExplained wish) (x : Surroundings (Watched σ)) (admitted : Bool)
    (u : Update) : (s.updated x admitted u).IsExplained wish := by
  have hdescribed : (s.described x u).IsExplained wish := by
    cases u with
    | localSdp now l sdp =>
      rw [described]
      split
      · exact ⟨h.wishes, h.pairs⟩
      · exact applyLocal (s := { s with localSdp := s.localSdp.set l sdp.normal })
          ⟨h.wishes, h.pairs⟩ now l _ _ _ 0
    | remoteSdp now l sdp =>
      exact applyLines (s := { s with remoteSdp := s.remoteSdp.set l sdp.normal })
        ⟨h.wishes, h.pairs⟩ x now l _ _ 0
  rw [updated_eq]
  split
  · exact h
  · exact enduring.enlist hdescribed admitted

theorem writePairs {ps : List (Pair (Watched σ))} (h : ∀ p ∈ ps, p.IsExplained wish) (now : Nat)
    (ts : UInt64) (scratch : List UInt8) :
    ∀ p ∈ (Session.writePairs now ts ps scratch).1, p.IsExplained wish := by
  induction ps generalizing scratch with
  | nil => exact h
  | cons p ps ih =>
    obtain ⟨hp, hps⟩ := List.forall_mem_cons.1 h
    have hfirst := hp.tick now ts scratch
    rw [Session.writePairs]
    rcases hr : p.tick now ts scratch with ⟨p', scratch', f | u⟩ <;> rw [hr] at hfirst
    · exact List.forall_mem_cons.2 ⟨hfirst, hps⟩
    · exact List.forall_mem_cons.2 ⟨hfirst, ih hps scratch'⟩

end IsExplained

end Session

/-! ## Watched runs -/

/-- The surroundings that hand out watched streams. -/
def Surroundings.watched (x : Surroundings σ) : Surroundings (Watched σ) where
  settings := x.settings
  allocate n l := (x.allocate n l).map fun s => ⟨s, 0, .blank 0⟩

theorem Surroundings.map_watched (x : Surroundings σ) : x.watched.map Watched.stream = x := by
  have hanswers : (fun n l => (x.watched.allocate n l).map Watched.stream) = x.allocate := by
    funext n l
    simp only [watched]
    cases x.allocate n l <;> rfl
  rw [map, hanswers]
  rfl

theorem Session.map_keysNoted (s : Session (Watched σ)) :
    s.keysNoted.map Watched.stream = s.map Watched.stream := by
  simp only [map, keysNoted, List.map_map]
  rfl

namespace Held

/-- The watched session just before an incident. If that collects the key presses, the tapes note
them. -/
def alerted (h : Held (Watched σ)) : Incident → Held (Watched σ)
  | .keys => { h with session := h.session.keysNoted }
  | _ => h

variable [MediaStream σ]

/-- The watched session after an incident. -/
def watch (x : Surroundings σ) (h : Held (Watched σ)) (i : Incident) : Held (Watched σ) :=
  (h.alerted i).meet x.watched i

/-- The watched session after a run of incidents. -/
def watchAll (x : Surroundings σ) (h : Held (Watched σ)) (incidents : List Incident) :
    Held (Watched σ) := incidents.foldl (watch x) h

/-- Watching a session makes no difference to it. -/
theorem map_watch (x : Surroundings σ) (h : Held (Watched σ)) (i : Incident) :
    (h.watch x i).map Watched.stream = (h.map Watched.stream).meet x i := by
  have halerted : (h.alerted i).map Watched.stream = h.map Watched.stream := by
    cases i with
    | keys => exact congrArg (Held.mk · h.handles) h.session.map_keysNoted
    | _ => rfl
  have hmeet := map_meet Watched.streamMap x.watched (h.alerted i) i
  rw [halerted, x.map_watched] at hmeet
  exact hmeet.symm

theorem map_watchAll (x : Surroundings σ) (h : Held (Watched σ)) (incidents : List Incident) :
    (h.watchAll x incidents).map Watched.stream = (h.map Watched.stream).meetAll x incidents := by
  induction incidents generalizing h with
  | nil => rfl
  | cons i incidents ih =>
    have hrest : (h.watchAll x (i :: incidents)).map Watched.stream = _ := ih (h.watch x i)
    rw [hrest, map_watch]
    rfl

end Held

/-- After an incident the tapes explain the detectors if they did before. -/
theorem Session.IsExplained.watch {wish : Leg → Bool → Prop} [MediaStream σ] (x : Surroundings σ)
    {h : Held (Watched σ)} (hs : h.session.IsExplained wish) {i : Incident}
    (hi : ∀ detects, i = .detect detects → ∀ l, wish l (detects.get l)) :
    (h.watch x i).session.IsExplained wish := by
  cases i with
  | deed d =>
    exact enduring.perform (fun admitted u h => h.updated x.watched admitted u)
      (fun l index feed h => h.setAlternate l index feed) hs d
  | tick now ts scratch => exact ⟨hs.wishes, writePairs hs.pairs now ts scratch⟩
  | keys => exact hs.processKeys
  | buffer l index serial => exact hs.setAlternate l index _
  | fill serial data => exact hs.filled serial data
  | deliver now l port data =>
    refine hs.mapPairs fun p hp => ?_
    split
    · exact hp.deliver now l data
    · exact hp
  | clearTimeout now => exact hs.mapPairs fun p hp => hp.clearTimeout now
  | detect detects => exact ⟨hi detects rfl, hs.pairs⟩

theorem Session.IsExplained.watchAll {wish : Leg → Bool → Prop} [MediaStream σ]
    (x : Surroundings σ) {h : Held (Watched σ)} (hs : h.session.IsExplained wish)
    {incidents : List Incident}
    (hwish : ∀ detects, .detect detects ∈ incidents → ∀ l, wish l (detects.get l)) :
    (h.watchAll x incidents).session.IsExplained wish := by
  induction incidents generalizing h with
  | nil => exact hs
  | cons i incidents ih =>
    exact ih (hs.watch x fun detects hi => hwish detects (hi ▸ List.mem_cons_self))
      fun detects hd => hwish detects (List.mem_cons_of_mem i hd)

/-! ## Key presses -/

/-- The key press that a notice tells of. -/
def Notice.press : Notice → Option Dtmf.Event
  | .key event => some event
  | _ => none

/-- The key presses that a leg was told of. -/
def Books.told (b : Books) (l : Leg) : List Dtmf.Event := (b.posted.get l).filterMap Notice.press

/-- The key presses that a leg was told of. -/
def Session.told (s : Session σ) (l : Leg) : List Dtmf.Event :=
  (s.posted.get l).filterMap Notice.press

namespace Books

theorem told_post (b : Books) {notice : Notice} (h : notice.press = none) (l : Leg) :
    (b.post notice).told l = b.told l := by
  cases l <;> simp [told, post, PerLeg.get, h]

theorem told_terminate (b : Books) (l : Leg) : b.terminate.told l = b.told l := by
  unfold terminate
  split
  · exact told_post { b with scheduled := false } rfl l
  · rfl

/-- No operation tells a leg of key presses. -/
theorem told_step (b : Books) (ready : Bool) (op : Operation) (l : Leg) :
    (b.step ready op).told l = b.told l := by
  cases op with
  | copy =>
    rw [step]
    split <;> rfl
  | drop =>
    rw [step]
    split <;> rfl
  | update u admitted =>
    rw [step, enlist]
    split
    · cases admitted <;> rfl
    · rfl
  | stop known =>
    rw [step, stop]
    split
    · exact told_terminate _ l
    · rfl
  | failed reason => exact told_post b rfl l
  | terminated => exact told_terminate b l
  | _ => rfl

end Books

namespace Held

variable [MediaStream σ]

/-- The key presses of a leg that wait when an incident collects them. -/
def due (h : Held σ) (l : Leg) : Incident → List Dtmf.Event
  | .keys => h.session.waiting l
  | _ => []

/-- The key presses of a leg that are collected in a run of incidents. -/
def collected (x : Surroundings σ) (h : Held σ) (l : Leg) : List Incident → List Dtmf.Event
  | [] => []
  | i :: incidents => h.due l i ++ collected x (h.meet x i) l incidents

/-- A leg is told of the key presses that wait for it when they are collected. -/
theorem keys_meet (x : Surroundings σ) (h : Held σ) (i : Incident) (l : Leg) :
    (h.meet x i).session.told l = h.session.told l ++ h.due l i := by
  have hsame {s : Session σ} (hs : s.books 0 = h.session.books 0) :
      s.told l = h.session.told l ++ [] := by
    rw [List.append_nil]
    exact congrArg (Books.told · l) hs
  cases i with
  | deed d =>
    cases d with
    | operation op =>
      have htold := congrArg (Books.told · l) (books_step x h op)
      exact htold.trans ((Books.told_step _ _ op l).trans (List.append_nil _).symm)
    | alternate k index feed =>
      refine hsame ?_
      simp only [meet, perform, Session.setAlternate]
      split <;> rfl
    | clearAudio => exact hsame (books_clearAudio 0 _)
    | finalize =>
      have htold := congrArg (Books.told · l) (books_finalize 0 h.session)
      exact htold.trans (List.append_nil _).symm
  | keys =>
    have hpresses (events : List Dtmf.Event) :
        (events.map Notice.key).filterMap Notice.press = events := by
      rw [List.filterMap_map]
      exact List.filterMap_some
    rw [meet, due, Session.told, Session.told, Session.processKeys_eq]
    cases l <;> simp only [PerLeg.get, List.filterMap_append, hpresses]
  | buffer k index serial =>
    refine hsame ?_
    simp only [meet, Session.attachBuffered, Session.setAlternate]
    split <;> rfl
  | fill serial data =>
    refine hsame ?_
    simp only [meet, Session.filled, Session.writeAlternate]
    cases Session.writePairAlternate serial data h.session.pairs <;> rfl
  | _ => exact hsame rfl

theorem keys_meetAll (x : Surroundings σ) (h : Held σ) (incidents : List Incident) (l : Leg) :
    (h.meetAll x incidents).session.told l = h.session.told l ++ h.collected x l incidents := by
  induction incidents generalizing h with
  | nil => exact (List.append_nil _).symm
  | cons i incidents ih =>
    have hrest : (h.meetAll x (i :: incidents)).session.told l = _ := ih (h.meet x i)
    rw [hrest, keys_meet, collected, List.append_assoc]

end Held

/-! ## Runs -/

theorem Session.isExplained_fresh (id : SessionId) (callgroup : String) (detects : PerLeg Bool)
    (receiver : Receiver) {wish : Leg → Bool → Prop} (hwish : ∀ l, wish l (detects.get l)) :
    (Session.fresh id callgroup detects receiver : Session (Watched σ)).IsExplained wish :=
  ⟨hwish, fun _ hp => absurd hp List.not_mem_nil⟩

/-- Key presses that were collected wait no more. -/
theorem Session.waiting_processKeys (s : Session σ) (l : Leg) : s.processKeys.waiting l = [] := by
  rw [processKeys_eq, waiting, List.flatMap_eq_nil_iff]
  intro q hq
  obtain ⟨p, -, rfl⟩ := List.mem_map.1 hq
  rw [Pair.waiting, Pair.leg_drained, LegMedia.waiting]
  cases (p.leg l).detector <;> rfl

variable [MediaStream σ]

/-- Nothing is ever collected for a leg that never wishes to hear of keys. -/
theorem Held.collected_of_unwished (x : Surroundings σ) {wish : Leg → Bool → Prop}
    {h : Held (Watched σ)} (hs : h.session.IsExplained wish) {incidents : List Incident}
    (hwish : ∀ detects, .detect detects ∈ incidents → ∀ l, wish l (detects.get l)) {l : Leg}
    (hl : ¬ wish l true) : (h.map Watched.stream).collected x l incidents = [] := by
  induction incidents generalizing h with
  | nil => rfl
  | cons i incidents ih =>
    have hnext : (h.watch x i).session.IsExplained wish :=
      hs.watch x fun detects hi => hwish detects (hi ▸ List.mem_cons_self)
    have hrest := ih hnext fun detects hd => hwish detects (List.mem_cons_of_mem i hd)
    rw [collected, ← map_watch, hrest, List.append_nil]
    cases i with
    | keys =>
      rw [due, show (h.map Watched.stream).session = h.session.map Watched.stream from rfl,
        Session.waiting_map, Session.waiting, List.flatMap_eq_nil_iff]
      exact fun p hp => (hs.pairs p hp).waiting_of_unwished hl
    | _ => rfl

/-- **Main theorem**: whatever happens to a session, the detector of a leg in a pair hears what is
read from the leg's own stream in that pair, and the leg is told of the key presses found there.

The streams may be watched, which makes no difference. Then a new detector that hears the tape of a
stream, with all that was read from it since it was negotiated and nothing else, becomes the
detector of the stream's leg, and finds the key presses that were collected and those that wait in
their order. When key presses are collected each leg is told of those that wait in its own
detectors, pair by pair, and they wait no more; at no other time a leg is told of any. A leg that
does not change its mind has a detector wherever it is negotiated if it wants to hear of keys, and
otherwise none, and then it is told of none. -/
theorem key_attribution (x : Surroundings σ) (id : SessionId) (callgroup : String)
    (detects : PerLeg Bool) (receiver : Receiver) (incidents : List Incident) :
    let start : Held σ := Held.fresh id callgroup detects receiver
    let h := start.meetAll x incidents
    let watched := (Held.fresh id callgroup detects receiver).watchAll x incidents
    watched.map Watched.stream = h ∧
      (∀ p ∈ watched.session.pairs, ∀ l d, (p.leg l).detector = some d →
        let tape := (p.stream l).tape
        (Dtmf.Detector.ofRate tape.rate).hears tape.pieces =
          { d with events := tape.collected ++ d.events }) ∧
      (∀ l, h.session.processKeys.posted.get l =
          h.session.posted.get l ++ (h.session.waiting l).map .key ∧
        h.session.processKeys.waiting l = []) ∧
      (∀ l, h.session.told l = start.collected x l incidents) ∧
      ∀ l, (∀ wishes, .detect wishes ∈ incidents → wishes.get l = detects.get l) →
        (∀ p ∈ h.session.pairs, p.hasDetector l = (p.isInitialized l && detects.get l)) ∧
          (detects.get l = false → h.session.told l = []) := by
  intro start h watched
  let fresh : Held (Watched σ) := Held.fresh id callgroup detects receiver
  have hsame : watched.map Watched.stream = h := Held.map_watchAll x fresh incidents
  have htold (l : Leg) : h.session.told l = start.collected x l incidents := by
    have hrun := Held.keys_meetAll x start incidents l
    rw [show start.session.told l = [] by cases l <;> rfl, List.nil_append] at hrun
    exact hrun
  have hfresh {wish : Leg → Bool → Prop} (hwish : ∀ l, wish l (detects.get l)) :
      fresh.session.IsExplained wish :=
    Session.isExplained_fresh id callgroup detects receiver hwish
  refine ⟨hsame, fun p hp l d hd => ?_, fun l => ⟨?_, Session.waiting_processKeys _ l⟩, htold,
    fun l hsteady => ?_⟩
  · have hany : fresh.session.IsExplained fun _ _ => True := hfresh fun _ => trivial
    have hexplained : watched.session.IsExplained fun _ _ => True :=
      hany.watchAll x fun _ _ _ => trivial
    exact (hexplained.pairs p hp l).explained d hd
  · rw [Session.processKeys_eq]
    cases l <;> rfl
  · have hwish : fresh.session.IsExplained fun k b => k = l → b = detects.get l :=
      hfresh fun k hk => by rw [hk]
    have hkept (wishes : PerLeg Bool) (hw : .detect wishes ∈ incidents) (k : Leg) (hk : k = l) :
        wishes.get k = detects.get l := by
      rw [hk]
      exact hsteady wishes hw
    refine ⟨fun p hp => ?_, fun hl => ?_⟩
    · rw [← hsame] at hp
      obtain ⟨q, hq, rfl⟩ := List.mem_map.1 hp
      rw [Pair.hasDetector, Pair.detector_map, Pair.isInitialized_map]
      exact ((hwish.watchAll x hkept).pairs q hq).hasDetector_eq fun b hb => hb rfl
    · rw [htold]
      refine Held.collected_of_unwished x hwish hkept fun hloud => ?_
      exact Bool.noConfusion ((hloud rfl).trans hl)

/-- Streams on which somebody speaks four bytes. -/
def speakingSurroundings : Surroundings Rehearsal.ScriptedStream where
  settings := Settings.Bridging.standard
  allocate n _ := .ok { Rehearsal.ScriptedStream.onPort (UInt16.ofNat (5000 + n)) with
    frameSize := 4, queue := [UInt8.ofNat n, 1, 2, 3] }

/-- Descriptions of both legs, a tick, and a collection of key presses. -/
def sampleIncidents : List Incident :=
  sampleUpdates.map (fun u => .deed (.operation (.update u true))) ++
    [.tick 4 160 [9, 9, 9, 9], .keys, .detect ⟨false, false⟩]

theorem key_attribution_sample :
    (∀ wishes, .detect wishes ∈ sampleIncidents → wishes.get .a = (⟨false, true⟩ : PerLeg Bool).a) ∧
    ((Held.fresh ⟨"s"⟩ "g" ⟨false, true⟩ (Receiver.idle [])).meetAll speakingSurroundings
      sampleIncidents).session.told .a = [] := by
  have hsteady : ∀ wishes, .detect wishes ∈ sampleIncidents → wishes.get .a = false := by
    intro wishes hw
    simp only [sampleIncidents, sampleUpdates, List.map_cons, List.map_nil, List.cons_append,
      List.nil_append, List.mem_cons, reduceCtorEq, false_or, Incident.detect.injEq,
      List.not_mem_nil, or_false] at hw
    rw [hw]
    rfl
  exact ⟨hsteady, ((key_attribution speakingSurroundings ⟨"s"⟩ "g" ⟨false, true⟩
    (Receiver.idle []) sampleIncidents).2.2.2.2 .a hsteady).2 rfl⟩

/-- The detector of the second leg heard the two samples that were read from its own stream, whose
bytes the first leg was sent. There is a stream of the second pair, but no detector on it. -/
example :
    let watched := (Held.fresh ⟨"s"⟩ "g" ⟨false, true⟩ (Receiver.idle [])).watchAll
      speakingSurroundings sampleIncidents
    watched.session.pairs.map (fun p => ((p.stream .b).tape.pieces,
      (p.leg .b).detector.map (·.partialBlock))) =
        [([(160, [1, 1, 2, 3])], some [257, 770]), ([], none)] := by decide +kernel

end CallBridge.Bridge
