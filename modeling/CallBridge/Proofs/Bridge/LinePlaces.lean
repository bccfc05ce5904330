import CallBridge.Proofs.Bridge.References

/-!
# Each line for the pair in its place

When a description comes in, its audio lines are applied to the pairs one after the other. Seen from
a single pair this comes down to one step: the pair in a place was there before or is made of two
new streams, and only the line in the same place was applied to it.

What the streams are good for does not change by setting them up. A steady property that all streams
handed out have is had by all streams of all pairs.

Results:
* `applied_applyLines`, `applied_applyLocal`: what became of the pair in a place.
* `length_applyLines`: the number of pairs where every request for a stream is granted.
* `steady_applyLine`, `steady_renegotiate`: steady properties stay.
-/

namespace CallBridge.Bridge

open Rtp (MediaStream LawfulStream Receiver Steady)
open Sdp (Description Media)

variable {σ : Type} [MediaStream σ]

/-! ## Ports that no receiver refuses -/

section

variable (r : Receiver) (p : Pair σ) (l : Leg)

theorem barred_attach (s : σ) : (Pair.attach r s).1.barred = r.barred := by
  unfold Pair.attach
  split
  · exact r.barred_add _
  · rfl

theorem attach_of_barred {r : Receiver} (h : r.barred = []) (s : σ) :
    (Pair.attach r s).2 = .ok () := by
  unfold Pair.attach
  split
  · exact Receiver.add_of_barred h _
  · rfl

theorem barred_reattach (s : σ) : (Pair.reattach r s).1.barred = r.barred := by
  unfold Pair.reattach
  split
  · rfl
  · exact barred_attach r s

theorem reattach_of_barred {r : Receiver} (h : r.barred = []) (s : σ) :
    (Pair.reattach r s).2 = .ok () := by
  unfold Pair.reattach
  split
  · rfl
  · exact attach_of_barred h s

theorem barred_create (a b : σ) (playout : Playout.Mode) :
    (Pair.create a b playout r).1.barred = r.barred := by
  have ha := barred_attach r a
  unfold Pair.create
  rcases hfirst : Pair.attach r a with ⟨r', f | u⟩ <;> rw [hfirst] at ha
  · exact ha
  · have hb := barred_attach r' b
    rcases hsecond : Pair.attach r' b with ⟨r'', f | u⟩ <;> rw [hsecond] at hb <;>
      simp only [hsecond] <;> exact hb.trans ha

theorem barred_setRelay (media : Media) : (p.setRelay r l media).2.barred = r.barred := by
  simp only [Pair.setRelay]
  split
  · have h := r.barred_remove (MediaStream.port (p.stream l.opposite))
    rcases hremove : r.remove (MediaStream.port (p.stream l.opposite)) with ⟨r', _ | _⟩ <;>
      rw [hremove] at h
    · exact h
    · exact (r'.barred_add _).trans h
  · rfl

theorem barred_renegotiate (now : Nat) (detects : Bool) (ours theirs : Description) (line : Nat) :
    (Session.renegotiate now l detects ours theirs line p r).2.barred = r.barred := by
  simp only [Session.renegotiate, Pair.initLeg]
  rcases MediaStream.negotiate _ now ours theirs line with ⟨s, f | u⟩
  · rfl
  · have h := barred_reattach r s
    rcases hadd : Pair.reattach r s with ⟨r', f | u⟩ <;> rw [hadd] at h <;>
      simp only [hadd] <;> exact h

theorem barred_applyLine (now : Nat) (detects : Bool) (ours theirs : Description) (line : Nat)
    (media : Media) :
    (Session.applyLine now l detects ours theirs line media p r).2.barred = r.barred := by
  simp only [Session.applyLine]
  split
  · exact barred_setRelay r p l media
  · exact (barred_renegotiate _ _ l now detects ours theirs line).trans
      (barred_setRelay r p l media)

end

/-! ## The streams of a pair -/

section

variable (p : Pair σ) (r : Receiver) (l : Leg) (now : Nat) (detects : Bool)
  (ours theirs : Description) (line : Nat) (media : Media)

theorem setRelay_pair : (p.setRelay r l media).1 =
    p.setStream l.opposite (Pair.relayStream (p.stream l.opposite) (p.port l) media) := by
  simp only [Pair.setRelay]
  split <;> rfl

theorem stream_setRelay : (p.setRelay r l media).1.stream l = p.stream l := by
  rw [setRelay_pair]
  cases l <;> rfl

theorem stream_setRelay_opposite : (p.setRelay r l media).1.stream l.opposite =
    Pair.relayStream (p.stream l.opposite) (p.port l) media := by
  rw [setRelay_pair]
  cases l <;> rfl

omit [MediaStream σ] in
theorem stream_resetLeg (m : Leg) : (p.resetLeg l).1.stream m = p.stream m := by
  cases l <;> cases m <;> rfl

theorem stream_renegotiate :
    (Session.renegotiate now l detects ours theirs line p r).1.stream l =
      (MediaStream.negotiate (MediaStream.setPlayout (p.stream l) now p.playout) now ours theirs
        line).1 := by
  have hreset : (p.resetLeg l).1.stream l = p.stream l := stream_resetLeg p l l
  have hplayout : (p.resetLeg l).1.playout = p.playout := rfl
  simp only [Session.renegotiate, Pair.initLeg, hreset, hplayout]
  rcases MediaStream.negotiate (MediaStream.setPlayout (p.stream l) now p.playout) now ours theirs
    line with ⟨s, f | u⟩
  · cases l <;> rfl
  · rcases hadd : Pair.reattach r s with ⟨r', f | u⟩ <;> simp only [hadd] <;> cases l <;> rfl

theorem stream_renegotiate_opposite :
    (Session.renegotiate now l detects ours theirs line p r).1.stream l.opposite =
      p.stream l.opposite := by
  simp only [Session.renegotiate, Pair.initLeg]
  rcases MediaStream.negotiate _ now ours theirs line with ⟨s, f | u⟩
  · cases l <;> rfl
  · rcases hadd : Pair.reattach r s with ⟨r', f | u⟩ <;> simp only [hadd] <;> cases l <;> rfl

end

/-! ## Steady properties -/

section

variable {P : σ → Prop} {p : Pair σ} {m : Leg} (r : Receiver) (l : Leg) (now : Nat)
  (detects : Bool) (ours theirs : Description) (line : Nat) (media : Media)

theorem steady_relayStream (h : Steady P) {s : σ} (hs : P s) (peer : UInt16) :
    P (Pair.relayStream s peer media) := by
  have hrelay := h.enableRelay media.mask peer hs
  unfold Pair.relayStream
  split
  · exact h.disableRelay hs
  · rcases hanswer : MediaStream.enableRelay s media.mask peer with ⟨s', f | u⟩ <;>
      rw [hanswer] at hrelay
    · exact h.disableRelay hrelay
    · exact hrelay

theorem steady_setRelay (h : Steady P) (hp : P (p.stream m)) :
    P ((p.setRelay r l media).1.stream m) := by
  rcases Leg.eq_or_eq_opposite l m with rfl | rfl
  · rw [stream_setRelay]
    exact hp
  · rw [stream_setRelay_opposite]
    exact steady_relayStream media h hp _

theorem steady_renegotiate (h : Steady P) (hp : P (p.stream m)) :
    P ((Session.renegotiate now l detects ours theirs line p r).1.stream m) := by
  rcases Leg.eq_or_eq_opposite l m with rfl | rfl
  · rw [stream_renegotiate]
    exact h.negotiate now ours theirs line (h.setPlayout now p.playout hp)
  · rw [stream_renegotiate_opposite]
    exact hp

theorem steady_applyLine (h : Steady P) (hp : P (p.stream m)) :
    P ((Session.applyLine now l detects ours theirs line media p r).1.stream m) := by
  have hrelay := steady_setRelay r l media h hp
  simp only [Session.applyLine]
  split
  · rw [stream_resetLeg]
    exact hrelay
  · exact steady_renegotiate _ l now detects ours theirs line h hrelay

end

/-! ## New pairs -/

/-- The pair is made of two streams that were handed out one after the other. -/
def Opened (x : Surroundings σ) (p : Pair σ) : Prop :=
  ∃ n a b, x.allocate n .a = .ok a ∧ x.allocate (n + 1) .b = .ok b ∧
    p = ⟨⟨LegMedia.ofStream a, LegMedia.ofStream b⟩, x.settings.playout⟩

omit [MediaStream σ] in
/-- Each stream of a new pair was handed out for its leg. -/
theorem Opened.stream {x : Surroundings σ} {p : Pair σ} (h : Opened x p) (l : Leg) :
    ∃ n, x.allocate n l = .ok (p.stream l) := by
  obtain ⟨n, a, b, ha, hb, rfl⟩ := h
  cases l
  · exact ⟨n, ha⟩
  · exact ⟨n + 1, hb⟩

theorem create_eq_ok {a b : σ} {playout : Playout.Mode} {r r' : Receiver} {p : Pair σ}
    (h : Pair.create a b playout r = (r', .ok p)) :
    p = ⟨⟨LegMedia.ofStream a, LegMedia.ofStream b⟩, playout⟩ := by
  unfold Pair.create at h
  split at h
  · cases h
  · split at h <;> cases h
    rfl

/-- A session that asked for a pair got none, or one of the next two streams. -/
theorem createPair_cases (x : Surroundings σ) (s : Session σ) :
    (s.createPair x).1.receiver.barred = s.receiver.barred ∧
      ∀ p, (s.createPair x).2 = .ok p → Opened x p := by
  obtain ⟨_, receiver, _, hafter, hanswer⟩ := createPair_streams x s
  have hreceiver : (s.createPair x).1.receiver = receiver := congrArg Session.receiver hafter
  rcases hanswer with ⟨f, -, hsame, herror⟩ | ⟨a, b, ha, hb, hcreate⟩
  · refine ⟨congrArg Receiver.barred (hreceiver.trans hsame), fun p hp => ?_⟩
    rw [herror] at hp
    cases hp
  · have hbarred := barred_create s.receiver a b x.settings.playout
    rw [hcreate] at hbarred
    refine ⟨(congrArg Receiver.barred hreceiver).trans hbarred, fun p hp => ?_⟩
    rw [hp] at hcreate
    exact ⟨s.requests, a, b, ha, hb, create_eq_ok hcreate⟩

theorem create_of_barred {r : Receiver} (h : r.barred = []) (a b : σ) (playout : Playout.Mode) :
    ∃ r' p, Pair.create a b playout r = (r', .ok p) := by
  have ha := attach_of_barred h a
  have hbarred := barred_attach r a
  unfold Pair.create
  rcases hfirst : Pair.attach r a with ⟨r', f | u⟩ <;> rw [hfirst] at ha hbarred
  · cases ha
  · have hb := attach_of_barred (hbarred.trans h) b
    rcases hsecond : Pair.attach r' b with ⟨r'', f | u⟩ <;> rw [hsecond] at hb
    · cases hb
    · simp only [hsecond]
      exact ⟨_, _, rfl⟩

/-- Where every request for a stream is granted and no port is barred, every request for a pair
is. -/
theorem createPair_granted {x : Surroundings σ} (hx : ∀ n l, ∃ t, x.allocate n l = .ok t)
    {s : Session σ} (hr : s.receiver.barred = []) : ∃ s' p, s.createPair x = (s', .ok p) := by
  obtain ⟨_, _, _, -, ⟨f, hnone, -, -⟩ | ⟨a, b, -, -, hcreate⟩⟩ := createPair_streams x s
  · rcases hnone with hnone | hnone
    · obtain ⟨t, ht⟩ := hx s.requests .a
      cases hnone.symm.trans ht
    · obtain ⟨t, ht⟩ := hx (s.requests + 1) .b
      cases hnone.symm.trans ht
  · obtain ⟨r, p, hgranted⟩ := create_of_barred hr a b x.settings.playout
    have hok : (s.createPair x).2 = .ok p := congrArg Prod.snd (hcreate.symm.trans hgranted)
    exact ⟨_, p, Prod.ext rfl hok⟩

/-! ## Places -/

/-- The pair is in a place of the session, or it is a new one for a place that has none. -/
def Finds (x : Surroundings σ) (s : Session σ) (i : Nat) (p : Pair σ) : Prop :=
  s.pairs[i]? = some p ∨ s.pairs.length ≤ i ∧ Opened x p

/-- Asking for the pair with the next index leads to one more pair or to none, and any pair that
was there before is left alone. -/
theorem ensurePair_cases (x : Surroundings σ) {s : Session σ} {index : Nat}
    (h : index ≤ s.pairs.length) :
    (s.ensurePair x index).1.receiver.barred = s.receiver.barred ∧
      match s.ensurePair x index with
      | (ready, .error _) => index = s.pairs.length ∧ ready.pairs = s.pairs
      | (ready, .ok ()) => ready.pairs.length = max s.pairs.length (index + 1) ∧
          ∀ i p, ready.pairs[i]? = some p →
            s.pairs[i]? = some p ∨ i = index ∧ s.pairs.length ≤ i ∧ Opened x p := by
  by_cases hnext : index = s.pairs.length
  · obtain ⟨hbarred, hopened⟩ := createPair_cases x s
    have hpairs := (createPair_frame x s).2
    rw [Session.ensurePair, if_pos hnext]
    rcases hcreate : s.createPair x with ⟨s', f | q⟩ <;> rw [hcreate] at hbarred hopened hpairs
    · exact ⟨hbarred, hnext, hpairs⟩
    · have hpairs' : s'.pairs = s.pairs := hpairs
      refine ⟨hbarred, ?_, fun i p hp => ?_⟩
      · rw [List.length_append, List.length_singleton, hpairs']
        omega
      · rw [List.getElem?_append, hpairs'] at hp
        split at hp
        · exact .inl hp
        · have hlast : q = p ∧ i ≤ s.pairs.length := by grind
          exact .inr ⟨by omega, by omega, hlast.1 ▸ hopened q rfl⟩
  · rw [ensurePair_of_lt (by omega)]
    refine ⟨rfl, ?_, fun i p hp => .inl hp⟩
    show s.pairs.length = _
    omega

theorem ensurePair_granted {x : Surroundings σ} (hx : ∀ n l, ∃ t, x.allocate n l = .ok t)
    {s : Session σ} (hr : s.receiver.barred = []) (index : Nat) :
    ∃ ready, s.ensurePair x index = (ready, .ok ()) := by
  obtain ⟨s', p, hcreate⟩ := createPair_granted hx hr
  rw [Session.ensurePair, hcreate]
  split <;> exact ⟨_, rfl⟩

/-- What is done to a pair and the receiver in one go. -/
abbrev Change (σ : Type) := Pair σ → Receiver → Pair σ × Receiver

omit [MediaStream σ] in
theorem getElem?_modifyPair (s : Session σ) (index : Nat) (f : Change σ) (i : Nat) :
    (s.modifyPair index f).pairs[i]? =
      if i = index then s.pairs[i]?.map fun p => (f p s.receiver).1 else s.pairs[i]? := by
  unfold Session.modifyPair
  rcases hp : s.pairs[index]? with _ | p
  · by_cases hi : i = index
    · simp only [hi, hp, if_true, Option.map_none]
    · simp only [if_neg hi]
  · have hlt : index < s.pairs.length := (List.getElem?_eq_some_iff.1 hp).1
    by_cases hi : i = index
    · simp only [hi, hp, List.getElem?_set, hlt, if_true, Option.map_some]
    · simp only [List.getElem?_set, if_neg hi, if_neg (Ne.symm hi)]

omit [MediaStream σ] in
theorem length_modifyPair (s : Session σ) (index : Nat) (f : Change σ) :
    (s.modifyPair index f).pairs.length = s.pairs.length := by
  unfold Session.modifyPair
  split
  · rfl
  · exact List.length_set

omit [MediaStream σ] in
/-- What is found in a place other than that of the changed pair was found there before. -/
theorem Finds.of_modifyPair {x : Surroundings σ} {s ready : Session σ} {index i : Nat} {p : Pair σ}
    {f : Change σ} (h : Finds x (ready.modifyPair index f) i p)
    (hlength : s.pairs.length ≤ ready.pairs.length)
    (hready : ∀ i p, ready.pairs[i]? = some p →
      s.pairs[i]? = some p ∨ i = index ∧ s.pairs.length ≤ i ∧ Opened x p)
    (hi : i ≠ index) : Finds x s i p := by
  rcases h with hp | ⟨hle, hopened⟩
  · rw [getElem?_modifyPair, if_neg hi] at hp
    exact .inl ((hready i p hp).resolve_right fun hsame => hi hsame.1)
  · rw [length_modifyPair] at hle
    exact .inr ⟨Nat.le_trans hlength hle, hopened⟩

omit [MediaStream σ] in
theorem barred_modifyPair (s : Session σ) (index : Nat) {f : Change σ}
    (h : ∀ p r, (f p r).2.barred = r.barred) :
    (s.modifyPair index f).receiver.barred = s.receiver.barred := by
  unfold Session.modifyPair
  split
  · rfl
  · exact h _ _

/-! ## All lines of a description -/

/-- The pair comes of another one by a change, if there is one, with a receiver that bars certain
ports. -/
def ComesOf (barred : List UInt16) (change : Option (Change σ)) (p p' : Pair σ) : Prop :=
  match change with
  | none => p' = p
  | some f => ∃ r, r.barred = barred ∧ p' = (f p r).1

/-- What a remote line does to the pair in its place. -/
def lineChange (now : Nat) (l : Leg) (s : Session σ) (theirs : Description)
    (entry : Nat × Media) : Change σ :=
  Session.applyLine now l (s.detects.get l) (s.localSdp.get l) theirs entry.1 entry.2

/-- Remote lines for the pairs from an index on: the pairs before it stay, and those in the places
of the lines change by their lines. -/
theorem applied_applyLines (x : Surroundings σ) (now : Nat) (l : Leg) (theirs : Description)
    (lines : List (Nat × Media)) {index : Nat} {s : Session σ} (h : index ≤ s.pairs.length) :
    let after := (Session.applyLines x now l theirs lines index s).1
    after.receiver.barred = s.receiver.barred ∧
      (∀ i p, i < index → after.pairs[i]? = some p → s.pairs[i]? = some p) ∧
      ∀ j p', after.pairs[index + j]? = some p' → ∃ p, Finds x s (index + j) p ∧
        ComesOf s.receiver.barred (lines[j]?.map (lineChange now l s theirs)) p p' := by
  induction lines generalizing index s with
  | nil => exact ⟨rfl, fun i p _ hp => hp, fun j p hp => ⟨p, .inl hp, rfl⟩⟩
  | cons entry rest ih =>
    obtain ⟨hbarred, hcases⟩ := ensurePair_cases x h
    have hsame := rewired_ensurePair x s index
    rw [Session.applyLines]
    rcases hensure : s.ensurePair x index with ⟨ready, f | u⟩ <;>
      rw [hensure] at hbarred hcases hsame <;> dsimp only
    · -- no pair for this line: there is none in its place or behind it
      obtain ⟨hnext, hpairs⟩ := hcases
      refine ⟨hbarred, fun i p _ hp => hpairs ▸ hp, fun j p' hp => ?_⟩
      rw [hpairs, List.getElem?_eq_none (by omega)] at hp
      cases hp
    · obtain ⟨hlength, hready⟩ := hcases
      have hline : Session.applyLine now l (ready.detects.get l) (ready.localSdp.get l) theirs
          entry.1 entry.2 = lineChange now l s theirs entry := by
        rw [lineChange, hsame.detects, hsame.localSdp]
      rw [hline]
      let f : Change σ := lineChange now l s theirs entry
      have hrewired := hsame.trans (rewired_modifyPair ready index f)
      have hkeeps : (ready.modifyPair index f).receiver.barred = s.receiver.barred :=
        (barred_modifyPair ready index fun p r => barred_applyLine r p l now _ _ _ _ _).trans
          hbarred
      have hrest : (lineChange now l (ready.modifyPair index f) theirs) =
          lineChange now l s theirs := by
        funext e
        rw [lineChange, lineChange, hrewired.detects, hrewired.localSdp]
      obtain ⟨hafter, hbefore, hbehind⟩ := @ih (index + 1) (ready.modifyPair index f)
        (by rw [length_modifyPair]; omega)
      refine ⟨hafter.trans hkeeps, fun i p hi hp => ?_, fun j p' hp => ?_⟩
      · have hp := hbefore i p (by omega) hp
        rw [getElem?_modifyPair, if_neg (by omega)] at hp
        exact (hready i p hp).resolve_right fun hsame => by omega
      · cases j with
        | zero =>
          have hp := hbefore _ p' (Nat.lt_succ_self _) hp
          rw [getElem?_modifyPair, if_pos rfl, Option.map_eq_some_iff] at hp
          obtain ⟨p, hfound, rfl⟩ := hp
          exact ⟨p, (hready index p hfound).imp_right And.right, ready.receiver, hbarred, rfl⟩
        | succ j =>
          rw [show index + (j + 1) = index + 1 + j by omega] at hp ⊢
          obtain ⟨p, hfinds, hcomes⟩ := hbehind j p' hp
          rw [hkeeps, hrest] at hcomes
          exact ⟨p, hfinds.of_modifyPair (by omega) hready (by omega), hcomes⟩

/-- Where every request for a stream is granted, all lines get their pairs. -/
theorem length_applyLines {x : Surroundings σ} (hx : ∀ n l, ∃ t, x.allocate n l = .ok t)
    (now : Nat) (l : Leg) (theirs : Description) (lines : List (Nat × Media)) {index : Nat}
    {s : Session σ} (h : index ≤ s.pairs.length) (hr : s.receiver.barred = []) :
    (Session.applyLines x now l theirs lines index s).1.pairs.length =
        max s.pairs.length (index + lines.length) ∧
      (Session.applyLines x now l theirs lines index s).2 = .ok () := by
  induction lines generalizing index s with
  | nil => exact ⟨by simp only [Session.applyLines, List.length_nil]; omega, rfl⟩
  | cons entry rest ih =>
    obtain ⟨ready, hensure⟩ := ensurePair_granted hx hr index
    obtain ⟨hbarred, hcases⟩ := ensurePair_cases x h
    rw [hensure] at hbarred hcases
    obtain ⟨hlength, -⟩ := hcases
    rw [Session.applyLines, hensure]
    dsimp only
    let f : Change σ := Session.applyLine now l (ready.detects.get l) (ready.localSdp.get l) theirs
      entry.1 entry.2
    have hkeeps : (ready.modifyPair index f).receiver.barred = [] :=
      (barred_modifyPair ready index fun p r => barred_applyLine r p l now _ _ _ _ _).trans
        (hbarred.trans hr)
    obtain ⟨hafter, hok⟩ := @ih (index + 1) (ready.modifyPair index f)
      (by rw [length_modifyPair]; omega) hkeeps
    rw [length_modifyPair] at hafter
    refine ⟨hafter.trans ?_, hok⟩
    rw [List.length_cons]
    omega

/-- What a local line does to the pair in its place. -/
def localChange (now : Nat) (l : Leg) (s : Session σ) (ours theirs : Description) (line : Nat) :
    Change σ := Session.renegotiate now l (s.detects.get l) ours theirs line

/-- Local lines for the pairs from an index on. -/
theorem applied_applyLocal (now : Nat) (l : Leg) (ours theirs : Description) (lines : List Nat)
    (index : Nat) (s : Session σ) :
    let after := Session.applyLocal now l ours theirs lines index s
    after.receiver.barred = s.receiver.barred ∧ after.pairs.length = s.pairs.length ∧
      (∀ i, i < index → after.pairs[i]? = s.pairs[i]?) ∧
      ∀ j p', after.pairs[index + j]? = some p' → ∃ p, s.pairs[index + j]? = some p ∧
        ComesOf s.receiver.barred (lines[j]?.map (localChange now l s ours theirs)) p p' := by
  induction lines generalizing index s with
  | nil => exact ⟨rfl, rfl, fun _ _ => rfl, fun j p hp => ⟨p, hp, rfl⟩⟩
  | cons line rest ih =>
    let f : Change σ := localChange now l s ours theirs line
    have hrewired := rewired_modifyPair s index f
    have hkeeps : (s.modifyPair index f).receiver.barred = s.receiver.barred :=
      barred_modifyPair s index fun p r => barred_renegotiate r p l now _ _ _ _
    have hrest : localChange now l (s.modifyPair index f) ours theirs =
        localChange now l s ours theirs := by
      funext line'
      rw [localChange, localChange, hrewired.detects]
    obtain ⟨hafter, hlength, hbefore, hbehind⟩ := ih (index + 1) (s.modifyPair index f)
    refine ⟨hafter.trans hkeeps, hlength.trans (length_modifyPair s index f), fun i hi => ?_,
      fun j p' hp => ?_⟩
    · have hi' := hbefore i (by omega)
      rw [getElem?_modifyPair, if_neg (by omega)] at hi'
      exact hi'
    · cases j with
      | zero =>
        have hp := (hbefore index (Nat.lt_succ_self _)).symm.trans hp
        rw [getElem?_modifyPair, if_pos rfl, Option.map_eq_some_iff] at hp
        obtain ⟨p, hfound, rfl⟩ := hp
        exact ⟨p, hfound, s.receiver, rfl, rfl⟩
      | succ j =>
        rw [show index + (j + 1) = index + 1 + j by omega] at hp ⊢
        obtain ⟨p, hfound, hcomes⟩ := hbehind j p' hp
        rw [getElem?_modifyPair, if_neg (by omega)] at hfound
        rw [hkeeps, hrest] at hcomes
        exact ⟨p, hfound, hcomes⟩

/-! ## Updates -/

/-- What an update does to the pair in a place. -/
def Update.change (s : Session σ) (i : Nat) : Update → Option (Change σ)
  | .localSdp now l sdp =>
    if (s.remoteSdp.get l).isEmpty then none
    else (sdp.normal.audioMedia.map (·.1))[i]?.map
      (localChange now l s sdp.normal (s.remoteSdp.get l))
  | .remoteSdp now l sdp => sdp.normal.audioMedia[i]?.map (lineChange now l s sdp.normal)

/-- The number of pairs that an update asks for. -/
def Update.demand : Update → Nat
  | .localSdp _ _ _ => 0
  | .remoteSdp _ _ sdp => sdp.normal.audioMedia.length

namespace Session

/-- The session with a description noted. -/
def noted (s : Session σ) : Update → Session σ
  | .localSdp _ l sdp => { s with localSdp := s.localSdp.set l sdp.normal }
  | .remoteSdp _ l sdp => { s with remoteSdp := s.remoteSdp.set l sdp.normal }

theorem rewired_described (x : Surroundings σ) (s : Session σ) (u : Update) :
    Rewired (s.noted u) (s.described x u) := by
  cases u with
  | localSdp now l sdp =>
    rw [described]
    split
    · exact Rewired.refl _
    · exact rewired_applyLocal now l _ _ _ 0 _
  | remoteSdp now l sdp => exact rewired_applyLines x now l _ _ 0 _

/-- The pair in a place after an update comes of the one before, or of a new one. -/
theorem described_place (x : Surroundings σ) (s : Session σ) (u : Update) :
    (s.described x u).receiver.barred = s.receiver.barred ∧
      ∀ i p', (s.described x u).pairs[i]? = some p' →
        ∃ p, Finds x s i p ∧ ComesOf s.receiver.barred (u.change s i) p p' := by
  cases u with
  | localSdp now l sdp =>
    by_cases he : (s.remoteSdp.get l).isEmpty = true
    · simp only [described, Update.change, if_pos he]
      exact ⟨trivial, fun i p hp => ⟨p, .inl hp, rfl⟩⟩
    · simp only [described, Update.change, if_neg he]
      obtain ⟨hbarred, -, -, hplaces⟩ := applied_applyLocal now l sdp.normal (s.remoteSdp.get l)
        (sdp.normal.audioMedia.map (·.1)) 0 (s.noted (.localSdp now l sdp))
      simp only [Nat.zero_add] at hplaces
      refine ⟨hbarred, fun i p' hp => ?_⟩
      obtain ⟨p, hfound, hcomes⟩ := hplaces i p' hp
      exact ⟨p, .inl hfound, hcomes⟩
  | remoteSdp now l sdp =>
    obtain ⟨hbarred, -, hplaces⟩ := applied_applyLines x now l sdp.normal sdp.normal.audioMedia
      (s := s.noted (.remoteSdp now l sdp)) (Nat.zero_le _)
    simp only [Nat.zero_add] at hplaces
    exact ⟨hbarred, hplaces⟩

theorem length_described {x : Surroundings σ} (hx : ∀ n l, ∃ t, x.allocate n l = .ok t)
    {s : Session σ} (hr : s.receiver.barred = []) (u : Update) :
    (s.described x u).pairs.length = max s.pairs.length u.demand := by
  cases u with
  | localSdp now l sdp =>
    rw [described, Update.demand, Nat.max_zero]
    split
    · rfl
    · exact (applied_applyLocal now l _ _ _ 0 (s.noted (.localSdp now l sdp))).2.1
  | remoteSdp now l sdp =>
    obtain ⟨hlength, -⟩ := length_applyLines hx now l sdp.normal sdp.normal.audioMedia
      (s := s.noted (.remoteSdp now l sdp)) (Nat.zero_le _) hr
    rw [Nat.zero_add] at hlength
    exact hlength

/-- The session as the scheduler takes it, if it is ready. -/
theorem enlist_running (s : Session σ) : s.enlist true =
    if s.isReady then
      { s with references := s.references + 1, scheduled := true, registered := true,
               submissions := s.submissions + 1 }
    else s := by
  unfold enlist
  split <;> rfl

theorem update_running {s : Session σ} (h : s.stopped = false) (x : Surroundings σ) (u : Update) :
    (s.update x u).1 = (s.described x u).enlist true := by
  have hupdate : (s.update x u).1 = s.updated x true u := by cases u <;> rfl
  rw [hupdate, updated_eq, if_neg (by simp [h])]

end Session

end CallBridge.Bridge
