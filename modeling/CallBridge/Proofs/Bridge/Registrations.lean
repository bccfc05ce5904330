import CallBridge.Proofs.Bridge.LinePlaces
import CallBridge.Proofs.Bridge.References

/-!
# What a receiver reads for a session

A stream is read from the moment its pair is made until the pair is given up. In between a stream
whose relay is set up anew is left alone for that moment, and a stream that is negotiated anew is
read afterwards. At rest a receiver reads exactly the streams of the pairs that its session has, as
long as it refuses none of them, whatever fails otherwise.

The proof goes by what is done to one pair. A change is discreet if it leaves the pair on its ports
and the receiver with what it reads, given that both streams of the pair are read. Relaying and
negotiation are discreet, whatever comes of them, and only new pairs and pairs that are given up
make a difference.

Results:
* `Enduring.perform`: what holds of a session after a deed if it outlives the loss of the pairs.
* `discreet_setRelay`, `discreet_applyLine`, `discreet_renegotiate`: what is done to a pair.
* `Heard.perform`: after a deed the receiver reads what the session has if it did before.
* `registrations_run`: what follows for any run of deeds, also after the session was stopped.
-/

namespace CallBridge.Bridge

open Rtp (MediaStream LawfulStream Receiver Steady)
open Sdp (Description Media)

variable {σ : Type} [MediaStream σ]

/-! ## Deeds -/

/-- What is done to the media of a session in one step. -/
inductive Deed where
  /-- The session is held, described, stopped, or called by its worker. -/
  | operation (op : Operation)
  /-- The alternate source of a leg in a pair is replaced. -/
  | alternate (l : Leg) (index : Nat) (feed : Option Audio.Feed)
  /-- The pairs are given up. -/
  | clearAudio
  /-- The session is torn down. -/
  | finalize

namespace Held

/-- The session after a deed. -/
def perform (x : Surroundings σ) (h : Held σ) : Deed → Held σ
  | .operation op => h.step x op
  | .alternate l index feed => { h with session := (h.session.setAlternate l index feed).1 }
  | .clearAudio => { h with session := h.session.clearAudio }
  | .finalize => { h with session := h.session.finalize }

/-- The session after a run of deeds. -/
def performAll (x : Surroundings σ) (h : Held σ) (deeds : List Deed) : Held σ :=
  deeds.foldl (perform x) h

end Held

/-! ## What outlives the pairs -/

/-- The second session has the pairs, the receiver and the wishes of the first one, and was stopped
if that one was. -/
structure Session.SameMedia (s t : Session σ) : Prop where
  pairs : t.pairs = s.pairs
  receiver : t.receiver = s.receiver
  detects : t.detects = s.detects
  stopped : s.stopped = true → t.stopped = true

/-- A property of sessions that only concerns their media, and that they keep when they give up
their pairs. -/
structure Enduring (P : Session σ → Prop) : Prop where
  of_same : ∀ {s t : Session σ}, P s → s.SameMedia t → P t
  clearAudio : ∀ {s : Session σ}, P s → P s.clearAudio

namespace Enduring

variable {P : Session σ → Prop} (hP : Enduring P) {s : Session σ}

include hP

theorem finalize (h : P s) : P s.finalize := by
  unfold Session.finalize
  split
  · exact h
  · have hcleared : P { s with finalized := true }.clearAudio :=
      hP.clearAudio (hP.of_same h ⟨rfl, rfl, rfl, id⟩)
    exact hP.of_same hcleared ⟨rfl, rfl, rfl, id⟩

theorem giveBack (h : P s) : P s.giveBack := by
  have hless : P { s with references := s.references - 1 } := hP.of_same h ⟨rfl, rfl, rfl, id⟩
  rw [Session.giveBack_eq]
  split
  · exact hP.finalize hless
  · exact hless

theorem enlist (h : P s) (admitted : Bool) : P (s.enlist admitted) := by
  unfold Session.enlist
  split
  · cases admitted
    · exact hP.giveBack (hP.of_same (t := s.refused) h ⟨rfl, rfl, rfl, id⟩)
    · exact hP.of_same h ⟨rfl, rfl, rfl, id⟩
  · exact h

theorem terminated (h : P s) : P s.terminated := by
  have hcleared : P s.suspended.clearAudio := hP.clearAudio (hP.of_same h ⟨rfl, rfl, rfl, id⟩)
  rw [terminated_eq]
  split
  · exact hP.giveBack (hP.of_same (t := s.surrendered) hcleared ⟨rfl, rfl, rfl, id⟩)
  · exact hcleared

theorem halted (h : P s) : P s.halted :=
  hP.of_same
    (hP.clearAudio (hP.of_same (t := { s with stopped := true }) h ⟨rfl, rfl, rfl, fun _ => rfl⟩))
    ⟨rfl, rfl, rfl, id⟩

theorem stop (h : P s) (known : Bool) : P (s.stop known) := by
  rw [stop_eq]
  split
  · exact hP.terminated (hP.halted h)
  · exact hP.halted h

/-- Only descriptions that come in add to the media of a session. -/
theorem step_of_ne {x : Surroundings σ} {h : Held σ} (hs : P h.session) {op : Operation}
    (hop : ∀ u admitted, op ≠ .update u admitted) : P (h.step x op).session := by
  cases op with
  | copy =>
    rw [Held.step]
    split
    · exact hs
    · exact hP.of_same hs ⟨rfl, rfl, rfl, id⟩
  | drop =>
    rw [Held.step]
    split
    · exact hs
    · exact hP.giveBack hs
  | update u admitted => exact absurd rfl (hop u admitted)
  | stop known => exact hP.stop hs known
  | terminated => exact hP.terminated hs
  | _ => exact hP.of_same hs ⟨rfl, rfl, rfl, id⟩

/-- What keeps the property when descriptions come in keeps it in every step. -/
theorem step {x : Surroundings σ}
    (hupdated : ∀ {s : Session σ} (admitted : Bool) (u : Update), P s → P (s.updated x admitted u))
    {h : Held σ} (hs : P h.session) (op : Operation) : P (h.step x op).session := by
  cases op with
  | update u admitted => exact hupdated admitted u hs
  | _ => exact hP.step_of_ne hs fun _ _ h => by cases h

theorem perform {x : Surroundings σ}
    (hupdated : ∀ {s : Session σ} (admitted : Bool) (u : Update), P s → P (s.updated x admitted u))
    (halternate : ∀ {s : Session σ} (l : Leg) (index : Nat) (feed : Option Audio.Feed), P s →
      P (s.setAlternate l index feed).1)
    {h : Held σ} (hs : P h.session) (deed : Deed) : P (h.perform x deed).session := by
  cases deed with
  | operation op => exact hP.step hupdated hs op
  | alternate l index feed => exact halternate l index feed hs
  | clearAudio => exact hP.clearAudio hs
  | finalize => exact hP.finalize hs

end Enduring

/-! ## What is done to one pair -/

/-- Both streams of a pair have sockets and are read by a receiver that refuses none. -/
structure Pair.IsHeard (p : Pair σ) (r : Receiver) : Prop where
  barred : r.barred = []
  socket : ∀ l, MediaStream.hasSocket (p.stream l) = true
  read : ∀ l, r.isRegistered (p.port l) = true

/-- A change that leaves a pair that is heard so, on its ports, and the receiver with what it
reads. -/
def Discreet (f : Change σ) : Prop :=
  ∀ p r, p.IsHeard r → (f p r).1.IsHeard (f p r).2 ∧ (∀ l, (f p r).1.port l = p.port l) ∧
    ∀ port, (f p r).2.isRegistered port = r.isRegistered port

theorem Discreet.comp {f g : Change σ} (hf : Discreet f) (hg : Discreet g) :
    Discreet fun p r => g (f p r).1 (f p r).2 := by
  intro p r h
  obtain ⟨hheard, hport, hread⟩ := hf p r h
  obtain ⟨hheard', hport', hread'⟩ := hg _ _ hheard
  exact ⟨hheard', fun l => (hport' l).trans (hport l), fun port => (hread' port).trans (hread port)⟩

/-- A stream that is told to relay is read afterwards if it was before. -/
theorem isRegistered_setRelay (p : Pair σ) {r : Receiver} (h : r.barred = []) (l : Leg)
    (media : Media) (port : UInt16) :
    (p.setRelay r l media).2.isRegistered port = r.isRegistered port := by
  simp only [Pair.setRelay]
  split
  · cases hread : r.isRegistered (MediaStream.port (p.stream l.opposite)) with
    | false =>
      simp only [Receiver.remove, hread, Bool.false_eq_true, if_false]
      exact Receiver.isRegistered_remove_of_not hread port
    | true =>
      simp only [Receiver.remove, hread, if_true]
      exact Receiver.isRegistered_readd h hread port
  · rfl

/-- What changes no stream and asks nothing of the receiver. -/
theorem discreet_of_stream {f : Pair σ → Pair σ} (hf : ∀ p l, (f p).stream l = p.stream l) :
    Discreet fun p r => (f p, r) := by
  intro p r h
  have hport : ∀ l, (f p).port l = p.port l := fun l => congrArg MediaStream.port (hf p l)
  refine ⟨⟨h.barred, fun l => ?_, fun l => ?_⟩, hport, fun _ => rfl⟩
  · exact (congrArg MediaStream.hasSocket (hf p l)).trans (h.socket l)
  · rw [hport]
    exact h.read l

section

variable [LawfulStream σ]

/-- Steady properties stay, so that the sockets and the ports do. -/
theorem discreet_of_steady {f : Change σ}
    (hsocket : Steady fun s : σ => MediaStream.hasSocket s = true)
    (hsteady : ∀ P : σ → Prop, Steady P → ∀ p r l, P (p.stream l) → P ((f p r).1.stream l))
    (hbarred : ∀ p r, (f p r).2.barred = r.barred)
    (hread : ∀ p r, p.IsHeard r → ∀ port, (f p r).2.isRegistered port = r.isRegistered port) :
    Discreet f := by
  intro p r h
  have hport : ∀ l, (f p r).1.port l = p.port l := fun l =>
    hsteady _ (Rtp.steady_port (p.port l)) p r l rfl
  refine ⟨⟨(hbarred p r).trans h.barred, fun l => hsteady _ hsocket p r l (h.socket l),
    fun l => ?_⟩, hport, hread p r h⟩
  rw [hport, hread p r h]
  exact h.read l

variable (hsocket : Steady fun s : σ => MediaStream.hasSocket s = true)
include hsocket

theorem discreet_setRelay (l : Leg) (media : Media) :
    Discreet fun (p : Pair σ) r => p.setRelay r l media :=
  discreet_of_steady hsocket (fun _ hP _ r _ => steady_setRelay r l media hP)
    (fun p r => barred_setRelay r p l media) fun p _ h => isRegistered_setRelay p h.barred l media

/-- A stream that is read already is not registered again, whatever comes of the negotiation. -/
theorem discreet_renegotiate (now : Nat) (l : Leg) (detects : Bool) (ours theirs : Description)
    (line : Nat) : Discreet (Session.renegotiate (σ := σ) now l detects ours theirs line) := by
  refine discreet_of_steady hsocket
    (fun _ hP _ r _ => steady_renegotiate r l now detects ours theirs line hP)
    (fun p r => barred_renegotiate r p l now detects ours theirs line) fun p r h port => ?_
  have hport := (Rtp.steady_port (p.port l)).negotiate now ours theirs line
    ((Rtp.steady_port (p.port l)).setPlayout now p.playout rfl)
  have hread := h.read l
  have hstream : (p.resetLeg l).1.stream l = p.stream l := stream_resetLeg p l l
  have hplayout : (p.resetLeg l).1.playout = p.playout := rfl
  simp only [Session.renegotiate, Pair.initLeg, hstream, hplayout]
  rcases hanswer : MediaStream.negotiate (MediaStream.setPlayout (p.stream l) now p.playout) now
    ours theirs line with ⟨s, f | u⟩
  · rfl
  · have hreattach : Pair.reattach r s = (r, .ok ()) := by
      rw [hanswer] at hport
      rw [← hport] at hread
      exact if_pos hread
    simp only [hreattach]

theorem discreet_applyLine (now : Nat) (l : Leg) (detects : Bool) (ours theirs : Description)
    (line : Nat) (media : Media) :
    Discreet (Session.applyLine (σ := σ) now l detects ours theirs line media) := by
  refine (discreet_setRelay hsocket l media).comp
    (g := fun p r => if ours.isEmpty then ((p.resetLeg l).1, r)
      else Session.renegotiate now l detects ours theirs line p r) ?_
  cases ours.isEmpty
  · exact discreet_renegotiate hsocket now l detects ours theirs line
  · exact discreet_of_stream fun p => stream_resetLeg p l

end

/-! ## What is done to all pairs -/

/-- A session stays on its ports where the pair that is changed does. -/
theorem Session.ports_modifyPair (s : Session σ) {index : Nat} {f : Change σ} {l : Leg}
    (hf : ∀ p, s.pairs[index]? = some p → (f p s.receiver).1.port l = p.port l) :
    (s.modifyPair index f).ports l = s.ports l := by
  unfold Session.modifyPair
  rcases hp : s.pairs[index]? with _ | p
  · rfl
  · obtain ⟨hlt, hplace⟩ := List.getElem?_eq_some_iff.1 hp
    have hlt' : index < (s.pairs.map (·.port l)).length := by simpa using hlt
    have hold : p.port l = (s.pairs.map (·.port l))[index] := by rw [List.getElem_map, hplace]
    simp only [Session.ports, List.map_set, hf p hp]
    rw [hold]
    exact List.set_getElem_self _

omit [MediaStream σ] in
/-- Apart from the source that it closes, the replacement of a source only concerns a pair. -/
theorem Session.sameMedia_setAlternate (s : Session σ) (l : Leg) (index : Nat)
    (feed : Option Audio.Feed) :
    (s.modifyPair index fun p r => ((p.setAlternate l feed).1, r)).SameMedia
      (s.setAlternate l index feed).1 := by
  simp only [Session.setAlternate, Session.modifyPair]
  split <;> exact ⟨rfl, rfl, rfl, fun h => h⟩

/-- The receiver reads exactly the streams of the pairs, all of which have sockets. -/
structure Heard (ps : List (Pair σ)) (r : Receiver) : Prop where
  barred : r.barred = []
  socket : ∀ p ∈ ps, ∀ l, MediaStream.hasSocket (p.stream l) = true
  reading : ∀ port, r.isRegistered port = true ↔ ∃ l, port ∈ ps.map (·.port l)

namespace Heard

theorem isHeard {ps : List (Pair σ)} {r : Receiver} (h : Heard ps r) {p : Pair σ} (hp : p ∈ ps) :
    p.IsHeard r :=
  ⟨h.barred, h.socket p hp, fun l => (h.reading _).2 ⟨l, List.mem_map_of_mem hp⟩⟩

theorem modifyPair {s : Session σ} (h : Heard s.pairs s.receiver) (index : Nat) {f : Change σ}
    (hf : Discreet f) : Heard (s.modifyPair index f).pairs (s.modifyPair index f).receiver := by
  have hports (l : Leg) : (s.modifyPair index f).ports l = s.ports l :=
    s.ports_modifyPair fun p hp => (hf p s.receiver (h.isHeard (List.mem_of_getElem? hp))).2.1 l
  rcases hp : s.pairs[index]? with _ | p
  · rw [Session.modifyPair, hp]
    exact h
  · obtain ⟨hheard, -, hread⟩ := hf p s.receiver (h.isHeard (List.mem_of_getElem? hp))
    unfold Session.ports at hports
    simp only [Session.modifyPair, hp] at hports ⊢
    refine ⟨hheard.barred, fun q hq l => ?_, fun port => ?_⟩
    · rcases List.mem_or_eq_of_mem_set hq with hq | rfl
      · exact h.socket q hq l
      · exact hheard.socket l
    · simp only [hports, hread, h.reading]

/-- Both streams of a new pair are read. -/
theorem create {ps : List (Pair σ)} {r : Receiver} (h : Heard ps r) {a b : σ}
    (ha : MediaStream.hasSocket a = true) (hb : MediaStream.hasSocket b = true)
    (playout : Playout.Mode) :
    ∃ r' p, Pair.create a b playout r = (r', .ok p) ∧ Heard (ps ++ [p]) r' := by
  let r₁ := (r.add (MediaStream.port a)).1
  let r₂ := (r₁.add (MediaStream.port b)).1
  let p : Pair σ := ⟨⟨LegMedia.ofStream a, LegMedia.ofStream b⟩, playout⟩
  have h₁ : r₁.barred = [] := (r.barred_add _).trans h.barred
  have hfirst : Pair.attach r a = (r₁, .ok ()) := by
    rw [Pair.attach, if_pos ha]
    exact Prod.ext rfl (Receiver.add_of_barred h.barred _)
  have hsecond : Pair.attach r₁ b = (r₂, .ok ()) := by
    rw [Pair.attach, if_pos hb]
    exact Prod.ext rfl (Receiver.add_of_barred h₁ _)
  refine ⟨r₂, p, ?_, (r₁.barred_add _).trans h₁, fun q hq l => ?_, fun port => ?_⟩
  · simp only [Pair.create, hfirst, hsecond, p]
  · rcases List.mem_append.1 hq with hq | hq
    · exact h.socket q hq l
    · rw [List.mem_singleton.1 hq]
      cases l
      · exact ha
      · exact hb
  · have hread : r₂.isRegistered port =
        (r.isRegistered port || port == p.port .a || port == p.port .b) := by
      rw [Receiver.isRegistered_add (by rw [h₁]; rfl),
        Receiver.isRegistered_add (by rw [h.barred]; rfl)]
      rfl
    have hpair : (∃ l, port = p.port l) ↔ port = p.port .a ∨ port = p.port .b := Leg.exists_iff
    simp only [hread, Bool.or_eq_true, beq_iff_eq, h.reading, List.map_append, List.map_singleton,
      List.mem_append, List.mem_singleton, exists_or, hpair, or_assoc]

end Heard

/-! ## What is done to a session -/

/-- The receiver of a session reads exactly what the session has. -/
abbrev Session.IsHeard (s : Session σ) : Prop := Heard s.pairs s.receiver

namespace Heard

variable {x : Surroundings σ} {s : Session σ}

theorem ensurePair (hx : ∀ n l t, x.allocate n l = .ok t → MediaStream.hasSocket t = true)
    (h : s.IsHeard) (index : Nat) : (s.ensurePair x index).1.IsHeard := by
  obtain ⟨_, _, _, hafter, hanswer⟩ := createPair_streams x s
  unfold Session.ensurePair
  split
  · rcases hpair : s.createPair x with ⟨s', f | p⟩ <;> rw [hpair] at hafter hanswer <;>
      obtain rfl : s' = _ := hafter <;>
      rcases hanswer with ⟨f', -, hsame, herror⟩ | ⟨a, b, ha, hb, hcreate⟩
    · rw [Session.IsHeard, hsame]
      exact h
    · obtain ⟨r, p, hgranted, -⟩ := h.create (hx _ _ _ ha) (hx _ _ _ hb) x.settings.playout
      cases hcreate.symm.trans hgranted
    · cases herror
    · obtain ⟨r, q, hgranted, hheard⟩ := h.create (hx _ _ _ ha) (hx _ _ _ hb) x.settings.playout
      cases hcreate.symm.trans hgranted
      exact hheard
  · exact h

theorem receiver_clearLeg {p : Pair σ} {l : Leg} (h : MediaStream.hasSocket (p.stream l) = true)
    (r : Receiver) : (p.clearLeg r l).2.1 = (r.remove (p.port l)).1 := if_pos h

/-- A pair that is given up is read no more. -/
theorem isRegistered_dropPair {p : Pair σ} (hp : ∀ l, MediaStream.hasSocket (p.stream l) = true)
    (s : Session σ) (port : UInt16) :
    (s.dropPair p).receiver.barred = s.receiver.barred ∧
      ((s.dropPair p).receiver.isRegistered port = true ↔
        s.receiver.isRegistered port = true ∧ ∀ l, port ≠ p.port l) := by
  have hreceiver : (s.dropPair p).receiver =
      ((s.receiver.remove (p.port .a)).1.remove (p.port .b)).1 := by
    rw [← receiver_clearLeg (hp .a)]
    exact receiver_clearLeg (p := (p.clearLeg s.receiver .a).1) (l := .b) (hp .b) _
  rw [hreceiver, Leg.forall_iff]
  refine ⟨rfl, ?_⟩
  simp only [Receiver.isRegistered_remove, Bool.and_eq_true, bne_iff_ne, ne_eq, and_assoc]

theorem isRegistered_dropPairs {ps : List (Pair σ)}
    (hp : ∀ p ∈ ps, ∀ l, MediaStream.hasSocket (p.stream l) = true) (s : Session σ)
    (port : UInt16) :
    (ps.foldl Session.dropPair s).receiver.barred = s.receiver.barred ∧
      ((ps.foldl Session.dropPair s).receiver.isRegistered port = true ↔
        s.receiver.isRegistered port = true ∧ ∀ l, port ∉ ps.map (·.port l)) := by
  induction ps generalizing s with
  | nil => exact ⟨rfl, by simp⟩
  | cons p ps ih =>
    obtain ⟨hbarred, hfirst⟩ := isRegistered_dropPair (hp p List.mem_cons_self) s port
    obtain ⟨hbarred', hrest⟩ := ih (fun q hq => hp q (List.mem_cons_of_mem p hq)) (s.dropPair p)
    refine ⟨hbarred'.trans hbarred, ?_⟩
    rw [List.foldl_cons, hrest, hfirst]
    simp only [List.map_cons, List.mem_cons, not_or, forall_and, and_assoc]

/-- A session that gave up its pairs has nothing read. -/
theorem clearAudio (h : s.IsHeard) : s.clearAudio.IsHeard := by
  have hdrop := isRegistered_dropPairs h.socket { s with pairs := [] }
  have hpairs := s.pairs_clearAudio
  refine ⟨(hdrop 0).1.trans h.barred, fun p hp => ?_, fun port => ?_⟩
  · rw [hpairs] at hp
    cases hp
  · have hread : s.clearAudio.receiver.isRegistered port = true ↔ _ := (hdrop port).2
    rw [hread, hpairs]
    simp only [List.map_nil, List.not_mem_nil, exists_false, iff_false]
    rintro ⟨hread, hnone⟩
    obtain ⟨l, hl⟩ := (h.reading port).1 hread
    exact hnone l hl

theorem enduring : Enduring fun s : Session σ => s.IsHeard where
  of_same h hsame := by
    rw [Session.IsHeard, hsame.pairs, hsame.receiver]
    exact h
  clearAudio h := h.clearAudio

theorem setAlternate (h : s.IsHeard) (l : Leg) (index : Nat) (feed : Option Audio.Feed) :
    (s.setAlternate l index feed).1.IsHeard :=
  enduring.of_same
    (h.modifyPair index (discreet_of_stream fun p => p.stream_setAlternate l feed))
    (s.sameMedia_setAlternate l index feed)

section

variable [LawfulStream σ] (hsocket : Steady fun s : σ => MediaStream.hasSocket s = true)
include hsocket

theorem applyLines (hx : ∀ n l t, x.allocate n l = .ok t → MediaStream.hasSocket t = true)
    (h : s.IsHeard) (now : Nat) (l : Leg) (theirs : Description) (lines : List (Nat × Media))
    (index : Nat) : (Session.applyLines x now l theirs lines index s).1.IsHeard := by
  induction lines generalizing index s with
  | nil => exact h
  | cons entry rest ih =>
    have hready := ensurePair hx h index
    rw [Session.applyLines]
    rcases hensure : s.ensurePair x index with ⟨ready, f | u⟩ <;> rw [hensure] at hready
    · exact hready
    · have hline := discreet_applyLine hsocket now l (ready.detects.get l) (ready.localSdp.get l)
        theirs entry.1 entry.2
      exact ih (hready.modifyPair index hline) (index + 1)

theorem applyLocal (h : s.IsHeard) (now : Nat) (l : Leg) (ours theirs : Description)
    (lines : List Nat) (index : Nat) :
    (Session.applyLocal now l ours theirs lines index s).IsHeard := by
  induction lines generalizing index s with
  | nil => exact h
  | cons line rest ih =>
    have hline := discreet_renegotiate hsocket now l (s.detects.get l) ours theirs line
    exact ih (h.modifyPair index hline) (index + 1)

theorem described (hx : ∀ n l t, x.allocate n l = .ok t → MediaStream.hasSocket t = true)
    (h : s.IsHeard) (u : Update) : (s.described x u).IsHeard := by
  cases u with
  | localSdp now l sdp =>
    rw [Session.described]
    split
    · exact h
    · exact applyLocal (s := { s with localSdp := s.localSdp.set l sdp.normal }) hsocket h now l _ _
        _ 0
  | remoteSdp now l sdp =>
    exact applyLines (s := { s with remoteSdp := s.remoteSdp.set l sdp.normal }) hsocket hx h now l
      _ _ 0

theorem updated (hx : ∀ n l t, x.allocate n l = .ok t → MediaStream.hasSocket t = true)
    (h : s.IsHeard) (admitted : Bool) (u : Update) : (s.updated x admitted u).IsHeard := by
  rw [updated_eq]
  split
  · exact h
  · exact enduring.enlist (h.described hsocket hx u) admitted

/-- After a deed the receiver reads what the session has, if it did before. -/
theorem perform {h : Held σ}
    (hx : ∀ n l t, x.allocate n l = .ok t → MediaStream.hasSocket t = true)
    (hs : h.session.IsHeard) (deed : Deed) : (h.perform x deed).session.IsHeard :=
  enduring.perform (fun admitted u h => h.updated hsocket hx admitted u)
    (fun l index feed h => h.setAlternate l index feed) hs deed

theorem performAll {h : Held σ}
    (hx : ∀ n l t, x.allocate n l = .ok t → MediaStream.hasSocket t = true)
    (hs : h.session.IsHeard) (deeds : List Deed) : (h.performAll x deeds).session.IsHeard := by
  induction deeds generalizing h with
  | nil => exact hs
  | cons deed deeds ih => exact ih (perform hsocket hx hs deed)

end

end Heard

/-! ## After the end -/

/-- The session was stopped, has no pairs any more, and left the receiver like this. -/
structure Session.IsOver (s : Session σ) (r : Receiver) : Prop where
  stopped : s.stopped = true
  pairs : s.pairs = []
  receiver : s.receiver = r

namespace Session.IsOver

variable {s : Session σ} {r : Receiver}

theorem enduring (r : Receiver) : Enduring fun s : Session σ => s.IsOver r where
  of_same h hsame :=
    ⟨hsame.stopped h.stopped, hsame.pairs.trans h.pairs, hsame.receiver.trans h.receiver⟩
  clearAudio h := by
    rw [clearAudio_of_nil h.pairs]
    exact h

theorem updated (x : Surroundings σ) (h : s.IsOver r) (admitted : Bool) (u : Update) :
    (s.updated x admitted u).IsOver r := by
  rw [updated_eq, if_pos h.stopped]
  exact h

omit [MediaStream σ] in
theorem setAlternate (h : s.IsOver r) (l : Leg) (index : Nat) (feed : Option Audio.Feed) :
    (s.setAlternate l index feed).1.IsOver r := by
  have hnone : s.pairs[index]? = none := by rw [h.pairs, List.getElem?_nil]
  simp only [Session.setAlternate, hnone]
  exact h

/-- Once it was stopped a session asks nothing of the receiver. -/
theorem perform {held : Held σ} (x : Surroundings σ) (h : held.session.IsOver r) (deed : Deed) :
    (held.perform x deed).session.IsOver r :=
  (enduring r).perform (fun admitted u h => h.updated x admitted u)
    (fun l index feed h => h.setAlternate l index feed) h deed

theorem performAll {held : Held σ} (x : Surroundings σ) (h : held.session.IsOver r)
    (deeds : List Deed) : (held.performAll x deeds).session.IsOver r := by
  induction deeds generalizing held with
  | nil => exact h
  | cons deed deeds ih => exact ih (h.perform x deed)

end Session.IsOver

/-- A session that is stopped gives up its pairs at once. -/
theorem isOver_stop (s : Session σ) (known : Bool) :
    (s.stop known).IsOver s.halted.receiver := by
  have hhalted : s.halted.IsOver s.halted.receiver := by
    refine ⟨?_, Session.pairs_clearAudio _, rfl⟩
    have hbooks := books_halted 0 s
    exact congrArg Books.stopped hbooks
  rw [stop_eq]
  split
  · exact (Session.IsOver.enduring _).terminated hhalted
  · exact hhalted

/-! ## Runs -/

/-- **Main theorem**: whatever is done to a session, and whatever fails on the way, in the end its
receiver reads exactly the ports of the streams that the session has. That holds where the receiver
refuses no stream and every stream has a socket that it keeps.

A stream that is told to relay is read as before, whatever comes of it. Once the session was stopped
nothing of it is read, and the receiver is asked for nothing any more. -/
theorem registrations_run [LawfulStream σ]
    (hsocket : Steady fun s : σ => MediaStream.hasSocket s = true) {x : Surroundings σ}
    (hx : ∀ n l t, x.allocate n l = .ok t → MediaStream.hasSocket t = true) (id : SessionId)
    (callgroup : String) (detects : PerLeg Bool) (deeds : List Deed) :
    let held := (Held.fresh id callgroup detects (Receiver.idle []) : Held σ).performAll x deeds
    let s := held.session
    (∀ port, s.receiver.isRegistered port = true ↔ ∃ l, port ∈ s.ports l) ∧
      (∀ p ∈ s.pairs, ∀ l media port,
        (p.setRelay s.receiver l media).2.isRegistered port = s.receiver.isRegistered port) ∧
      ∀ known later,
        let stopped := held.perform x (.operation (.stop known))
        let ended := stopped.performAll x later
        (∀ port, ended.session.receiver.isRegistered port = false) ∧
          ended.session.receiver = stopped.session.receiver := by
  intro held s
  have hstart : Heard ([] : List (Pair σ)) (Receiver.idle []) :=
    ⟨rfl, fun _ hp => absurd hp List.not_mem_nil,
      fun port => by simp [Receiver.idle, Receiver.isRegistered]⟩
  have hheard : s.IsHeard :=
    Heard.performAll (h := Held.fresh id callgroup detects (Receiver.idle [])) hsocket hx hstart
      deeds
  refine ⟨hheard.reading, fun p _ l media => isRegistered_setRelay p hheard.barred l media,
    fun known later => ?_⟩
  intro stopped ended
  have hstopped : stopped.session.IsOver s.halted.receiver := isOver_stop s known
  have hended : ended.session.IsOver s.halted.receiver := hstopped.performAll x later
  have hsilent : ended.session.IsHeard :=
    (Heard.perform (h := held) hsocket hx hheard (.operation (.stop known))).performAll hsocket hx
      later
  refine ⟨fun port => ?_, hended.receiver.trans hstopped.receiver.symm⟩
  rw [Bool.eq_false_iff, ne_eq, hsilent.reading port, hended.pairs]
  simp

/-- Streams on ports of their own, one for each request but the fourth and all after it. -/
def scarceSurroundings : Surroundings Rehearsal.ScriptedStream where
  settings := Settings.Bridging.standard
  allocate n _ :=
    if n < 3 then .ok (Rehearsal.ScriptedStream.onPort (UInt16.ofNat (5000 + n)))
    else .error (.portsExhausted 5000 5002)

/-- Descriptions of both legs, the last of them with a line too many and with another one whose
negotiation fails, and what the worker and the owner do meanwhile. -/
def sampleDeeds : List Deed :=
  sampleUpdates.map (fun u => .operation (.update u true)) ++
    [.alternate .a 0 none, .operation .started,
      .operation (.update (.remoteSdp 4 .b (sampleLines [[9], [0]])) true)]

theorem registrations_run_sample :
    (Steady fun s : Rehearsal.ScriptedStream => MediaStream.hasSocket s = true) ∧
      (∀ n l t, scarceSurroundings.allocate n l = .ok t → MediaStream.hasSocket t = true) ∧
      let held := (Held.fresh ⟨"s"⟩ "g" ⟨false, true⟩ (Receiver.idle []) :
        Held Rehearsal.ScriptedStream).performAll scarceSurroundings sampleDeeds
      ∀ port, held.session.receiver.isRegistered port = true ↔
        ∃ l, port ∈ held.session.ports l := by
  have hsocket : Steady fun s : Rehearsal.ScriptedStream => MediaStream.hasSocket s = true :=
    ⟨fun _ _ h => h, fun h => h, fun _ _ _ _ h => h, fun _ _ h => h⟩
  have hx : ∀ n l t, scarceSurroundings.allocate n l = .ok t →
      MediaStream.hasSocket t = true := by
    intro n l t h
    simp only [scarceSurroundings] at h
    split at h <;> cases h
    rfl
  exact ⟨hsocket, hx, (registrations_run hsocket hx ⟨"s"⟩ "g" ⟨false, true⟩ sampleDeeds).1⟩

/-- The stream that was handed out for the second pair, which never came to be, is not read. -/
example :
    let held := (Held.fresh ⟨"s"⟩ "g" ⟨false, true⟩ (Receiver.idle []) :
      Held Rehearsal.ScriptedStream).performAll scarceSurroundings sampleDeeds
    (held.session.receiver.reading, held.session.ports .a, held.session.ports .b,
      held.session.released.map (·.2.port)) = ([5000, 5001], [5000], [5001], [5002]) := by
  decide

end CallBridge.Bridge
