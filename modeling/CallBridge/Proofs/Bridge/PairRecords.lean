import CallBridge.Proofs.Bridge.LawfulStream
import CallBridge.Proofs.Bridge.Ledger

/-!
# What a line does to a pair

What shows of a pair after an audio line was applied to it, given what its streams answered to the
request to relay and to the negotiation of a leg. The answers are those of the very calls that are
made on the way.

Results:
* `record_applyLine`: a remote line sets the relay mask of the other leg and the state of its own.
* `record_renegotiate`: a local line sets the state of its leg.
-/

namespace CallBridge.Bridge

open Rtp (MediaStream LawfulStream Receiver)
open Sdp (Description Media)

variable {σ : Type} [MediaStream σ]

/-! ## Answers -/

/-- What is answered when the other leg's stream is asked to relay what a remote line of a leg
lists. -/
def relayAnswer (l : Leg) (media : Media) (p : Pair σ) : Outcome Unit :=
  (MediaStream.enableRelay (p.stream l.opposite) media.mask (p.port l)).2

/-- What comes of negotiating a leg anew. -/
def negotiationAnswer (now : Nat) (l : Leg) (detects : Bool) (ours theirs : Description)
    (line : Nat) (p : Pair σ) (r : Receiver) : Outcome Unit :=
  ((p.resetLeg l).1.initLeg r now l detects ours theirs line).2.2

/-! ## Records -/

theorem record_create {a b : σ} {playout : Playout.Mode} {r : Receiver} {p : Pair σ}
    (h : (Pair.create a b playout r).2 = .ok p) :
    p.record = PairRecord.fresh ⟨streamRecord a, streamRecord b⟩ := by
  unfold Pair.create at h
  split at h
  · cases h
  · split at h <;> cases h
    rfl

theorem record_setLeg (p : Pair σ) (l : Leg) (m : LegMedia σ) :
    (p.setLeg l m).record = p.record.set l m.record := by
  cases l <;> rfl

theorem get_record (p : Pair σ) (l : Leg) : p.record.get l = (p.leg l).record := by
  cases l <;> rfl

theorem record_resetLeg (p : Pair σ) (l : Leg) :
    (p.resetLeg l).1.record = p.record.setInitialized l false := by
  rw [Pair.resetLeg, record_setLeg, PairRecord.setInitialized, PerLeg.modify, get_record]
  rfl

/-! ## Streams that obey the laws -/

variable [LawfulStream σ]

theorem streamRecord_relayStream (s : σ) (peer : UInt16) (media : Media) :
    streamRecord (Pair.relayStream s peer media) =
      ⟨MediaStream.port s,
        if media.payloads.isEmpty || !(MediaStream.enableRelay s media.mask peer).2.isOk then none
        else some media.mask⟩ := by
  unfold Pair.relayStream
  by_cases he : media.payloads.isEmpty = true
  · rw [if_pos he, streamRecord, LawfulStream.port_disableRelay,
      LawfulStream.relayMask_disableRelay, he]
    rfl
  · rw [if_neg he]
    have hport := LawfulStream.port_enableRelay s media.mask peer
    have hmask := LawfulStream.relayMask_enableRelay s media.mask peer
    have he' : media.payloads.isEmpty = false := by simpa using he
    rcases hrelay : MediaStream.enableRelay s media.mask peer with ⟨s', outcome⟩
    rw [hrelay] at hport hmask
    cases outcome with
    | ok u =>
      show streamRecord s' = _
      rw [streamRecord, hport, hmask rfl, he']
      rfl
    | error f =>
      show streamRecord (MediaStream.disableRelay s') = _
      rw [streamRecord, LawfulStream.port_disableRelay, LawfulStream.relayMask_disableRelay, hport,
        he']
      rfl

theorem record_setRelay (p : Pair σ) (r : Receiver) (l : Leg) (media : Media) :
    (p.setRelay r l media).1.record = p.record.setMask l.opposite
      (if media.payloads.isEmpty || !(relayAnswer l media p).isOk then none
        else some media.mask) := by
  have hstream := streamRecord_relayStream (p.stream l.opposite) (p.port l) media
  have hpair : (p.setRelay r l media).1 =
      p.setStream l.opposite (Pair.relayStream (p.stream l.opposite) (p.port l) media) := by
    simp only [Pair.setRelay]
    split <;> rfl
  rw [hpair, Pair.setStream, record_setLeg, LegMedia.record, hstream, PairRecord.setMask,
    PerLeg.modify, get_record]
  rfl

theorem streamRecord_negotiate (s : σ) (now : Nat) (mode : Playout.Mode)
    (ours theirs : Description) (line : Nat) :
    streamRecord
        (MediaStream.negotiate (MediaStream.setPlayout s now mode) now ours theirs line).1 =
      streamRecord s := by
  rw [streamRecord, LawfulStream.port_negotiate, LawfulStream.port_setPlayout,
    LawfulStream.relayMask_negotiate, LawfulStream.relayMask_setPlayout]
  rfl

/-- A leg that was not negotiated is afterwards if all went well. -/
theorem record_initLeg (p : Pair σ) (r : Receiver) (now : Nat) (l : Leg) (detects : Bool)
    (ours theirs : Description) (line : Nat) (h : p.isInitialized l = false) :
    (p.initLeg r now l detects ours theirs line).1.record =
      p.record.setInitialized l (p.initLeg r now l detects ours theirs line).2.2.isOk := by
  have hsame := streamRecord_negotiate (p.stream l) now p.playout ours theirs line
  rw [Pair.isInitialized] at h
  simp only [Pair.initLeg, PairRecord.setInitialized, PerLeg.modify, get_record]
  rcases hneg : MediaStream.negotiate (MediaStream.setPlayout (p.stream l) now p.playout) now ours
    theirs line with ⟨s, f | u⟩ <;> rw [hneg] at hsame
  · simp only [Pair.setStream, record_setLeg, LegMedia.record, hsame, h]
    rfl
  · rcases hadd : Pair.reattach r s with ⟨r', f | u⟩
    · simp only [hadd, Pair.setStream, record_setLeg, LegMedia.record, hsame, h]
      rfl
    · simp only [hadd, record_setLeg, LegMedia.record, hsame]
      rfl

/-- A leg is negotiated anew: it counts as negotiated exactly if that went well. -/
theorem record_renegotiate (now : Nat) (l : Leg) (detects : Bool) (ours theirs : Description)
    (line : Nat) (p : Pair σ) (r : Receiver) :
    (Session.renegotiate now l detects ours theirs line p r).1.record =
      p.record.setInitialized l (negotiationAnswer now l detects ours theirs line p r).isOk := by
  have hreset : (p.resetLeg l).1.isInitialized l = false := by
    rw [Pair.isInitialized, Pair.resetLeg, Pair.leg_setLeg_self]
  have hinit := record_initLeg (p.resetLeg l).1 r now l detects ours theirs line hreset
  rw [record_resetLeg, PairRecord.setInitialized_setInitialized] at hinit
  exact hinit

/-- A remote line of a leg. -/
theorem record_applyLine (now : Nat) (l : Leg) (detects : Bool) (ours theirs : Description)
    (line : Nat) (media : Media) (p : Pair σ) (r : Receiver)
    (attached : Outcome Unit) :
    (Session.applyLine now l detects ours theirs line media p r).1.record =
      p.record.afterRemote l (!ours.isEmpty) media ⟨attached, relayAnswer l media p,
        negotiationAnswer now l detects ours theirs line (p.setRelay r l media).1
          (p.setRelay r l media).2⟩ := by
  have hrelay := record_setRelay p r l media
  simp only [Session.applyLine, PairRecord.afterRemote, ← hrelay]
  by_cases he : ours.isEmpty = true
  · rw [if_pos he, record_resetLeg, he]
    rfl
  · have he' : ours.isEmpty = false := by simpa using he
    rw [if_neg he, record_renegotiate, he']
    rfl

end CallBridge.Bridge
