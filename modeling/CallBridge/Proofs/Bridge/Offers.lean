import CallBridge.Proofs.Bridge.LinePlaces

/-!
# What a stream relays by

What a remote audio line of a leg lists is the filter by which the stream across from the leg
relays, in the pair in the line's place. A pair outlives the description that its filter came with.
The next description of the leg replaces the filter where it has a line in that place, and leaves it
where its lines end before. So a stream relays by the offer that stands for its place, which is the
one that was made last; whether the leg still makes it is another question.

Results:
* `Offered.update`: one update.
* `relays_by_standing_offer`: any run of updates; when all filters are what the legs offer now.
* `not_relays_by_current_offer`: a leg that takes a line back.
-/

namespace CallBridge.Sdp

/-- What is to be relayed to the sender of a line: the payload types that it lists, if any. -/
def Media.offer (m : Media) : Option PayloadMask :=
  if m.payloads.isEmpty then none else some m.mask

@[simp] theorem Media.offer_normal (m : Media) : m.normal.offer = m.offer := by
  have hmask : m.normal.mask = m.mask := by simp [mask, payloadTypes, normal, Function.comp_def]
  have hempty : m.normal.payloads.isEmpty = m.payloads.isEmpty := List.isEmpty_map
  rw [offer, offer, hmask, hempty]

theorem Description.audioMedia_normal (d : Description) :
    d.normal.audioMedia = d.audioMedia.map fun e => (e.1, e.2.normal) := by
  simp only [audioMedia, normal, List.zipIdx_map, List.map_map, List.filter_map]
  rfl

/-- What is to be relayed to the sender of a description by the stream in a place. -/
def Description.offer (d : Description) (i : Nat) : Option PayloadMask :=
  d.audioMedia[i]?.bind (·.2.offer)

@[simp] theorem Description.offer_normal (d : Description) (i : Nat) :
    d.normal.offer i = d.offer i := by
  rw [offer, audioMedia_normal, List.getElem?_map, offer]
  cases d.audioMedia[i]? with
  | none => rfl
  | some entry => exact entry.2.offer_normal

end CallBridge.Sdp

namespace CallBridge.Bridge

open Rtp (MediaStream LawfulStream Receiver Steady)
open Sdp (Description Media)

variable {σ : Type} [MediaStream σ]

/-! ## Surroundings that refuse nothing -/

/-- No request to relay fails. -/
def RelaysAll (s : σ) : Prop :=
  ∀ mask peer, (MediaStream.enableRelay s mask peer).2 = .ok ()

/-- Every request for a stream is granted, with one that relays nothing yet and has a property. -/
def Supplies (x : Surroundings σ) (P : σ → Prop) : Prop :=
  ∀ n l, ∃ t, x.allocate n l = .ok t ∧ MediaStream.relayMask t = none ∧ P t

theorem Supplies.granted {x : Surroundings σ} {P : σ → Prop} (h : Supplies x P) (n : Nat)
    (l : Leg) : ∃ t, x.allocate n l = .ok t := by
  obtain ⟨t, ht, -⟩ := h n l
  exact ⟨t, ht⟩

theorem Supplies.opened {x : Surroundings σ} {P : σ → Prop} (h : Supplies x P) {p : Pair σ}
    (hp : Opened x p) (l : Leg) : p.relayMask l = none ∧ P (p.stream l) := by
  obtain ⟨n, hn⟩ := hp.stream l
  obtain ⟨t, ht, hmask, hprop⟩ := h n l
  rw [hn] at ht
  cases ht
  exact ⟨hmask, hprop⟩

/-! ## Sessions that run -/

/-- The session was not stopped, no port of its is refused, and its streams have a property. -/
structure Running (P : σ → Prop) (s : Session σ) : Prop where
  stopped : s.stopped = false
  barred : s.receiver.barred = []
  streams : ∀ p ∈ s.pairs, ∀ l, P (p.stream l)

theorem enlist_keeps (s : Session σ) :
    (s.enlist true).stopped = s.stopped ∧ (s.enlist true).receiver = s.receiver ∧
      (s.enlist true).pairs = s.pairs ∧ (s.enlist true).localSdp = s.localSdp ∧
      (s.enlist true).remoteSdp = s.remoteSdp := by
  rw [Session.enlist_running]
  split <;> exact ⟨rfl, rfl, rfl, rfl, rfl⟩

/-- What a change does to a steady property. -/
theorem steady_change {P : σ → Prop} (hP : Steady P) {s : Session σ} {u : Update} {i : Nat}
    {barred : List UInt16} {p p' : Pair σ} (h : ComesOf barred (u.change s i) p p') {l : Leg}
    (hp : P (p.stream l)) : P (p'.stream l) := by
  cases u with
  | localSdp now m sdp =>
    rw [Update.change] at h
    split at h
    · exact h ▸ hp
    · cases hline : (sdp.normal.audioMedia.map (·.1))[i]? <;> rw [hline] at h
      · exact h ▸ hp
      · obtain ⟨r, -, rfl⟩ := h
        exact steady_renegotiate r m now _ _ _ _ hP hp
  | remoteSdp now m sdp =>
    rw [Update.change] at h
    cases hline : sdp.normal.audioMedia[i]? <;> rw [hline] at h
    · exact h ▸ hp
    · obtain ⟨r, -, rfl⟩ := h
      exact steady_applyLine r m now _ _ _ _ _ hP hp

namespace Running

variable {P : σ → Prop} {x : Surroundings σ} {s : Session σ}

/-- A pair in a place after an update comes of a pair whose streams have the property too. -/
theorem update_place (h : Running P s) (hx : Supplies x P) (u : Update) {i : Nat} {p' : Pair σ}
    (hp : (s.update x u).1.pairs[i]? = some p') :
    ∃ p, ComesOf [] (u.change s i) p p' ∧ (∀ l, P (p.stream l)) ∧
      (s.pairs[i]? = some p ∨ s.pairs.length ≤ i ∧ Opened x p) := by
  rw [Session.update_running h.stopped, (enlist_keeps _).2.2.1] at hp
  obtain ⟨p, hfinds, hcomes⟩ := (Session.described_place x s u).2 i p' hp
  rw [h.barred] at hcomes
  refine ⟨p, hcomes, fun l => ?_, hfinds⟩
  rcases hfinds with hp | ⟨-, hopened⟩
  · exact h.streams p (List.mem_of_getElem? hp) l
  · exact (hx.opened hopened l).2

theorem update (h : Running P s) (hP : Steady P) (hx : Supplies x P) (u : Update) :
    Running P (s.update x u).1 := by
  refine ⟨?_, ?_, fun p' hp l => ?_⟩
  · obtain ⟨_, _, _, _, hdescribed⟩ := Session.rewired_described x s u
    rw [Session.update_running h.stopped, (enlist_keeps _).1, hdescribed]
    cases u <;> exact h.stopped
  · rw [Session.update_running h.stopped, (enlist_keeps _).2.1]
    exact (Session.described_place x s u).1.trans h.barred
  · obtain ⟨i, hi⟩ := List.getElem?_of_mem hp
    obtain ⟨p, hcomes, hprop, -⟩ := h.update_place hx u hi
    exact steady_change hP hcomes (hprop l)

theorem length_update (h : Running P s) (hx : Supplies x P) (u : Update) :
    (s.update x u).1.pairs.length = max s.pairs.length u.demand := by
  rw [Session.update_running h.stopped, (enlist_keeps _).2.2.1]
  exact Session.length_described hx.granted h.barred u

/-- An update notes its description and no other. -/
theorem descriptions_update (h : Running P s) (x : Surroundings σ) (u : Update) :
    (s.update x u).1.localSdp = (s.noted u).localSdp ∧
      (s.update x u).1.remoteSdp = (s.noted u).remoteSdp := by
  obtain ⟨_, _, _, _, hdescribed⟩ := Session.rewired_described x s u
  obtain ⟨-, -, -, hlocal, hremote⟩ := enlist_keeps (s.described x u)
  rw [Session.update_running h.stopped, hlocal, hremote, hdescribed]
  exact ⟨rfl, rfl⟩

end Running

/-! ## Offers -/

/-- What each leg offers for each place after an update, where it offered certain things before. A
description says nothing about the places behind its last line. -/
def Update.note (offers : Leg → Nat → Option PayloadMask) : Update →
    Leg → Nat → Option PayloadMask
  | .localSdp _ _ _, l, i => offers l i
  | .remoteSdp _ m sdp, l, i =>
    if m = l then
      match sdp.audioMedia[i]? with
      | some entry => entry.2.offer
      | none => offers l i
    else offers l i

/-- What each leg offered last for each place in a run of updates. -/
def standingOffers (us : List Update) : Leg → Nat → Option PayloadMask :=
  us.foldl Update.note fun _ _ => none

/-- What a leg offers for a place by its current remote description. -/
def Session.offer (s : Session σ) (l : Leg) (i : Nat) : Option PayloadMask :=
  (s.remoteSdp.get l).offer i

theorem relayMask_eq (p : Pair σ) (l : Leg) : p.relayMask l = (p.record.get l).stream.mask := by
  rw [get_record]
  rfl

section

variable [LawfulStream σ]

/-- A remote line sets the mask of the stream across, and no other. -/
theorem relayMask_applyLine {p : Pair σ} {l : Leg} (h : RelaysAll (p.stream l.opposite))
    (now : Nat) (detects : Bool) (ours theirs : Description) (line : Nat) (media : Media)
    (r : Receiver) :
    let p' := (Session.applyLine now l detects ours theirs line media p r).1
    p'.relayMask l.opposite = media.offer ∧ p'.relayMask l = p.relayMask l := by
  intro p'
  have hrecord := record_applyLine now l detects ours theirs line media p r (.ok ())
  have hanswer : relayAnswer l media p = .ok () := h _ _
  rw [relayMask_eq, relayMask_eq, relayMask_eq p, hrecord, PairRecord.afterRemote, hanswer]
  cases l <;> exact ⟨by simp [PairRecord.setInitialized, PairRecord.setMask, PerLeg.modify,
    PerLeg.get, PerLeg.set, Leg.opposite, Media.offer, Except.isOk, Except.toBool], rfl⟩

theorem relayMask_renegotiate (now : Nat) (l : Leg) (detects : Bool) (ours theirs : Description)
    (line : Nat) (p : Pair σ) (r : Receiver) (m : Leg) :
    (Session.renegotiate now l detects ours theirs line p r).1.relayMask m = p.relayMask m := by
  rw [relayMask_eq, relayMask_eq, record_renegotiate]
  cases l <;> cases m <;> rfl

/-- The filters follow what an update notes. -/
theorem relayMask_change {s : Session σ} {u : Update} {i : Nat} {barred : List UInt16}
    {p p' : Pair σ} (hcomes : ComesOf barred (u.change s i) p p')
    (hrelay : ∀ l, RelaysAll (p.stream l)) {offers : Leg → Nat → Option PayloadMask}
    (h : ∀ l, p.relayMask l.opposite = offers l i) (l : Leg) :
    p'.relayMask l.opposite = u.note offers l i := by
  cases u with
  | localSdp now m sdp =>
    rw [Update.change] at hcomes
    rw [Update.note, ← h]
    split at hcomes
    · rw [hcomes]
    · cases hline : (sdp.normal.audioMedia.map (·.1))[i]? <;> rw [hline] at hcomes
      · rw [hcomes]
      · obtain ⟨r, -, rfl⟩ := hcomes
        exact relayMask_renegotiate now m _ _ _ _ p r _
  | remoteSdp now m sdp =>
    rw [Update.change, Sdp.Description.audioMedia_normal, List.getElem?_map] at hcomes
    rw [Update.note]
    cases hline : sdp.audioMedia[i]? with
    | none =>
      rw [hline] at hcomes
      rw [hcomes, h, ite_self]
    | some entry =>
      rw [hline] at hcomes
      obtain ⟨r, -, rfl⟩ := hcomes
      obtain ⟨hset, hkept⟩ := relayMask_applyLine (hrelay m.opposite) now (s.detects.get m)
        (s.localSdp.get m) sdp.normal entry.1 entry.2.normal r
      rw [Sdp.Media.offer_normal] at hset
      rcases Leg.eq_or_eq_opposite m l with rfl | rfl
      · rw [if_pos rfl]
        exact hset
      · rw [if_neg (Leg.opposite_ne m).symm, ← h, Leg.opposite_opposite]
        exact hkept

end

/-! ## Runs -/

/-- The filters of the pairs are certain offers, among them those of the current descriptions, and
nothing is offered for places without a pair. -/
structure Offered (offers : Leg → Nat → Option PayloadMask) (s : Session σ) : Prop where
  mask : ∀ i p, s.pairs[i]? = some p → ∀ l, p.relayMask l.opposite = offers l i
  beyond : ∀ i, s.pairs.length ≤ i → ∀ l, offers l i = none
  current : ∀ l i entry, (s.remoteSdp.get l).audioMedia[i]? = some entry →
    offers l i = entry.2.offer

section

variable [LawfulStream σ] {P : σ → Prop} {x : Surroundings σ} {s : Session σ}
  {offers : Leg → Nat → Option PayloadMask}

theorem Offered.update (h : Offered offers s) (hrun : Running P s) (hx : Supplies x P)
    (hrelay : ∀ t, P t → RelaysAll t) (u : Update) :
    Offered (u.note offers) (s.update x u).1 := by
  refine ⟨fun i p' hp l => ?_, fun i hi l => ?_, fun l i entry hentry => ?_⟩
  · obtain ⟨p, hcomes, hprop, hfinds⟩ := hrun.update_place hx u hp
    refine relayMask_change hcomes (fun m => hrelay _ (hprop m)) (fun m => ?_) l
    rcases hfinds with hp | ⟨hle, hopened⟩
    · exact h.mask i p hp m
    · rw [h.beyond i hle, (hx.opened hopened _).1]
  · rw [hrun.length_update hx] at hi
    have hbeyond := h.beyond i (by omega) l
    cases u with
    | localSdp now m sdp => exact hbeyond
    | remoteSdp now m sdp =>
      rw [Update.demand, Sdp.Description.audioMedia_normal, List.length_map] at hi
      have hline : sdp.audioMedia[i]? = none := List.getElem?_eq_none (by omega)
      rw [Update.note, hline, hbeyond, ite_self]
  · rw [(hrun.descriptions_update x u).2] at hentry
    cases u with
    | localSdp now m sdp => exact h.current l i entry hentry
    | remoteSdp now m sdp =>
      rw [Update.note]
      rcases Leg.eq_or_eq_opposite m l with rfl | rfl
      · rw [if_pos rfl]
        rw [Session.noted, PerLeg.get_set_self, Sdp.Description.audioMedia_normal,
          List.getElem?_map, Option.map_eq_some_iff] at hentry
        obtain ⟨raw, hraw, rfl⟩ := hentry
        rw [hraw, Sdp.Media.offer_normal]
      · rw [if_neg (Leg.opposite_ne m).symm]
        rw [Session.noted, PerLeg.get_set_opposite] at hentry
        exact h.current _ i entry hentry

theorem Offered.run (h : Offered offers s) (hrun : Running P s) (hP : Steady P)
    (hx : Supplies x P) (hrelay : ∀ t, P t → RelaysAll t) (us : List Update) :
    Offered (us.foldl Update.note offers) (s.run x us).1 := by
  induction us generalizing s offers with
  | nil => exact h
  | cons u us ih => exact ih (h.update hrun hx hrelay u) (hrun.update hP hx u)

end

theorem Offered.fresh (id : SessionId) (callgroup : String) (detects : PerLeg Bool) :
    Offered (fun _ _ => none)
      (Session.fresh id callgroup detects (Receiver.idle []) : Session σ) := by
  refine ⟨fun i p hp => ?_, fun _ _ _ => rfl, fun l i entry hentry => ?_⟩
  · cases hp
  · cases l <;> cases hentry

/-- **Main theorem**: in any run of descriptions, where streams are allocated and relays are set up
without fail, a stream relays by the last offer that the leg across made for its place.

Where the current remote description of that leg has a line in the place, this is what the line
lists. So all streams relay by what is offered now if and only if no leg took back a line for which
its last offer was not empty. -/
theorem relays_by_standing_offer [LawfulStream σ] {P : σ → Prop} (hP : Steady P)
    (hrelay : ∀ t, P t → RelaysAll t) {x : Surroundings σ} (hx : Supplies x P) (id : SessionId)
    (callgroup : String) (detects : PerLeg Bool) (us : List Update) :
    let s := ((Session.fresh id callgroup detects (Receiver.idle []) : Session σ).run x us).1
    (∀ i p, s.pairs[i]? = some p → ∀ l, p.relayMask l.opposite = standingOffers us l i) ∧
      (∀ (i : Nat) (p : Pair σ) (l : Leg) (entry : Nat × Media), s.pairs[i]? = some p →
        (s.remoteSdp.get l).audioMedia[i]? = some entry →
          p.relayMask l.opposite = entry.2.offer) ∧
      ((∀ i p, s.pairs[i]? = some p → ∀ l, p.relayMask l.opposite = s.offer l i) ↔
        ∀ i, i < s.pairs.length → ∀ l, (s.remoteSdp.get l).audioMedia[i]? = none →
          standingOffers us l i = none) := by
  intro s
  let start : Session σ := Session.fresh id callgroup detects (Receiver.idle [])
  have hrun : Running P start := ⟨rfl, rfl, fun p hp => absurd hp List.not_mem_nil⟩
  have h : Offered (standingOffers us) s :=
    (Offered.fresh id callgroup detects).run hrun hP hx hrelay us
  refine ⟨h.mask, fun i p l entry hp hentry => ?_, fun hcurrent i hi l hnone => ?_,
    fun hnone i p hp l => ?_⟩
  · rw [h.mask i p hp, h.current l i entry hentry]
  · have hp : s.pairs[i]? = some s.pairs[i] := List.getElem?_eq_getElem hi
    rw [← h.mask i _ hp, hcurrent i _ hp, Session.offer, Description.offer, hnone,
      Option.bind_none]
  · rw [h.mask i p hp, Session.offer, Description.offer]
    cases hentry : (s.remoteSdp.get l).audioMedia[i]? with
    | none => exact hnone i (List.getElem?_eq_some_iff.1 hp).1 l hentry
    | some entry => exact h.current l i entry hentry

/-- Surroundings with a stream for every request. -/
def plentifulSurroundings : Surroundings Rehearsal.ScriptedStream where
  settings := Settings.Bridging.standard
  allocate n _ := .ok (Rehearsal.ScriptedStream.onPort (UInt16.ofNat (5000 + n)))

/-- A leg that offers two lines, and then only the first of them. -/
def retractingUpdates : List Update :=
  [.remoteSdp 0 .a (sampleLines [[0], [8]]), .remoteSdp 1 .a (sampleLines [[0]])]

theorem relays_by_standing_offer_retracting :
    let P : Rehearsal.ScriptedStream → Prop := fun t => t.failing = []
    Steady P ∧ (∀ t, P t → RelaysAll t) ∧ Supplies plentifulSurroundings P ∧
      let s := (sampleSession.run plentifulSurroundings retractingUpdates).1
      ∀ i p, s.pairs[i]? = some p → ∀ l,
        p.relayMask l.opposite = standingOffers retractingUpdates l i := by
  intro P
  have hP : Steady P := ⟨fun _ _ h => h, fun h => h, fun _ _ _ _ h => h, fun _ _ h => h⟩
  have hrelay : ∀ t, P t → RelaysAll t := by
    intro t ht mask peer
    show t.answer .relay () = .ok ()
    rw [Rehearsal.ScriptedStream.answer, ht]
    rfl
  have hx : Supplies plentifulSurroundings P := fun n l => ⟨_, rfl, rfl, rfl⟩
  exact ⟨hP, hrelay, hx,
    (relays_by_standing_offer hP hrelay hx ⟨"s"⟩ "g" ⟨false, true⟩ retractingUpdates).1⟩

/-- The stream across from a leg that took a line back goes on relaying what that line listed. -/
theorem not_relays_by_current_offer :
    let s := (sampleSession.run plentifulSurroundings retractingUpdates).1
    ¬ ∀ i p, s.pairs[i]? = some p → ∀ l, p.relayMask l.opposite = s.offer l i := by
  intro s h
  exact absurd (h 1 _ rfl .a) (by decide)

end CallBridge.Bridge
