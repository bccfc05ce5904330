import CallBridge.Proofs.Bridge.Offers
import CallBridge.Proofs.Bridge.Registrations

/-!
# Pairs that never come to be

To make a pair a receiver is asked to read its first stream and then its second one. Where the
second one is refused there is no pair, but the first one is read from then on: nobody asks the
receiver to leave it alone, then or later. Such a port is a stray. Where the first stream is
refused, or no stream was handed out, nothing is left behind.

Strays add up. Whatever is done to a session, and whatever its receiver refuses from time to time,
the ports that are read for no pair of the session are exactly the strays of the requests for pairs
so far, also after the session was stopped.

Results:
* `Pair.create_cases`: the ways in which a pair comes to be or does not.
* `Session.createPair_error`: what a request in vain leaves behind.
* `Session.updateRemote_error`: an update fails by a request for a pair.
* `Confined.applyLine`: what is done to a pair for a line only concerns the ports of the pair.
* `Strays.undergoAll`: the strays of a run.
* `creation_undone_iff`: when a pair that does not come to be leaves the receiver as it was.
-/

namespace CallBridge.Bridge

open Rtp (MediaStream LawfulStream Receiver Steady)
open Sdp (Description Media)

variable {σ : Type} [MediaStream σ]

/-! ## Asking a receiver -/

/-- Whether a receiver reads a stream once it is asked to. -/
def takes (r : Receiver) (s : σ) : Bool :=
  MediaStream.hasSocket s && !r.barred.contains (MediaStream.port s)

/-- Whether a receiver refuses to read a stream. -/
def refuses (r : Receiver) (s : σ) : Bool :=
  MediaStream.hasSocket s && r.barred.contains (MediaStream.port s)

theorem takes_of_refuses {r : Receiver} {s : σ} (h : refuses r s = true) : takes r s = false := by
  simp only [refuses, Bool.and_eq_true] at h
  simp only [takes, h, Bool.not_true, Bool.and_false]

/-- What a receiver reads after it was asked to read the stream on a port, barred or not. -/
theorem isRegistered_add_any (r : Receiver) (port other : UInt16) :
    (r.add port).1.isRegistered other =
      (r.isRegistered other || (!r.barred.contains port && other == port)) := by
  cases hbarred : r.barred.contains port with
  | false => simp only [Receiver.isRegistered_add hbarred, Bool.not_false, Bool.true_and]
  | true =>
    simp only [Receiver.add, hbarred, if_true, Bool.not_true, Bool.false_and, Bool.or_false]
    rfl

namespace Pair

theorem isRegistered_attach (r : Receiver) (s : σ) (port : UInt16) :
    (attach r s).1.isRegistered port =
      (r.isRegistered port || (takes r s && port == MediaStream.port s)) := by
  unfold attach takes
  cases MediaStream.hasSocket s with
  | false => simp only [Bool.false_eq_true, if_false, Bool.false_and, Bool.or_false]
  | true => simp only [if_true, isRegistered_add_any, Bool.true_and]

theorem attach_ok_iff (r : Receiver) (s : σ) :
    (attach r s).2 = .ok () ↔ refuses r s = false := by
  unfold attach refuses Receiver.add
  cases MediaStream.hasSocket s with
  | false => simp only [Bool.false_eq_true, if_false, Bool.false_and]
  | true =>
    cases r.barred.contains (MediaStream.port s) with
    | false => simp only [if_true, Bool.false_eq_true, if_false, Bool.true_and]
    | true => simp

/-- The three ways in which a request for a pair ends: the first stream is refused and nothing
happened, the second one is refused and the first one is read, or both are read. -/
theorem create_cases (a b : σ) (playout : Playout.Mode) (r : Receiver) :
    let after := create a b playout r
    (refuses r a = true ∧ (∃ f, after.2 = .error f) ∧
        ∀ port, after.1.isRegistered port = r.isRegistered port) ∨
      (refuses r a = false ∧ refuses r b = true ∧ (∃ f, after.2 = .error f) ∧
        ∀ port, after.1.isRegistered port =
          (r.isRegistered port || (takes r a && port == MediaStream.port a))) ∨
      (refuses r a = false ∧ refuses r b = false ∧
        after.2 = .ok ⟨⟨LegMedia.ofStream a, LegMedia.ofStream b⟩, playout⟩ ∧
        ∀ port, after.1.isRegistered port =
          (r.isRegistered port || (takes r a && port == MediaStream.port a) ||
            (takes r b && port == MediaStream.port b))) := by
  intro after
  have hfirst := attach_ok_iff r a
  have hread := isRegistered_attach r a
  have hbarred := barred_attach r a
  simp only [after, create]
  rcases ha : attach r a with ⟨r₁, f | u⟩ <;> rw [ha] at hfirst hread hbarred
  · have hrefused : refuses r a = true := by simpa using hfirst
    refine .inl ⟨hrefused, ⟨f, rfl⟩, fun port => (hread port).trans ?_⟩
    rw [takes_of_refuses hrefused, Bool.false_and, Bool.or_false]
  · have hsecond := attach_ok_iff r₁ b
    have hread' := isRegistered_attach r₁ b
    -- the second stream is refused or not as if the first one had not been asked for
    have hrefuses : refuses r₁ b = refuses r b := by rw [refuses, refuses, hbarred]
    have htakes : takes r₁ b = takes r b := by rw [takes, takes, hbarred]
    rw [hrefuses] at hsecond
    simp only [htakes, hread] at hread'
    rcases hb : attach r₁ b with ⟨r₂, f | u'⟩ <;> rw [hb] at hsecond hread' <;> simp only [hb]
    · have hrefused : refuses r b = true := by simpa using hsecond
      refine .inr (.inl ⟨hfirst.1 rfl, hrefused, ⟨f, rfl⟩, fun port => (hread' port).trans ?_⟩)
      rw [takes_of_refuses hrefused, Bool.false_and, Bool.or_false]
    · exact .inr (.inr ⟨hfirst.1 rfl, hsecond.1 rfl, trivial, hread'⟩)

/-- Whether the first stream of a pair is read although the second one is refused. -/
def strands (a b : σ) (r : Receiver) : Bool := takes r a && refuses r b

/-- Where a pair does not come to be, the receiver reads what it read before, and the first stream
if that one is stranded. -/
theorem isRegistered_create_error {a b : σ} {playout : Playout.Mode} {r : Receiver} {f : Fault}
    (h : (create a b playout r).2 = .error f) (port : UInt16) :
    (create a b playout r).1.isRegistered port =
      (r.isRegistered port || (strands a b r && port == MediaStream.port a)) := by
  rcases create_cases a b playout r with
    ⟨hrefused, -, hread⟩ | ⟨-, hrefused, -, hread⟩ | ⟨-, -, hok, -⟩
  · rw [hread, strands, takes_of_refuses hrefused, Bool.false_and, Bool.false_and, Bool.or_false]
  · rw [hread, strands, hrefused, Bool.and_true]
  · rw [hok] at h
    cases h

/-- Nothing is stranded where a pair comes to be, and only its streams are read besides. -/
theorem create_ok {a b : σ} {playout : Playout.Mode} {r : Receiver} {p : Pair σ}
    (h : (create a b playout r).2 = .ok p) :
    strands a b r = false ∧
      ∀ port, (create a b playout r).1.isRegistered port = true →
        r.isRegistered port = true ∨ ∃ l, p.port l = port := by
  rcases create_cases a b playout r with
    ⟨-, ⟨f, herror⟩, -⟩ | ⟨-, -, ⟨f, herror⟩, -⟩ | ⟨-, haccepted, hok, hread⟩
  · rw [herror] at h
    cases h
  · rw [herror] at h
    cases h
  · rw [hok] at h
    cases h
    refine ⟨by rw [strands, haccepted, Bool.and_false], fun port hport => ?_⟩
    rw [hread] at hport
    simp only [Bool.or_eq_true, Bool.and_eq_true, beq_iff_eq] at hport
    rcases hport with (hport | ⟨-, rfl⟩) | ⟨-, rfl⟩
    · exact .inl hport
    · exact .inr ⟨.a, rfl⟩
    · exact .inr ⟨.b, rfl⟩

theorem isRegistered_create_of_isRegistered {r : Receiver} {port : UInt16}
    (h : r.isRegistered port = true) (a b : σ) (playout : Playout.Mode) :
    (create a b playout r).1.isRegistered port = true := by
  rcases create_cases a b playout r with ⟨-, -, hread⟩ | ⟨-, -, -, hread⟩ | ⟨-, -, -, hread⟩ <;>
    rw [hread, h] <;> rfl

end Pair

/-! ## Requests for pairs -/

namespace Session

/-- The port that a request for a pair leaves behind, if it does. -/
def stray? (x : Surroundings σ) (s : Session σ) : Option UInt16 :=
  match x.allocate s.requests .a, x.allocate (s.requests + 1) .b with
  | .ok a, .ok b => if Pair.strands a b s.receiver then some (MediaStream.port a) else none
  | _, _ => none

/-- No stream on a port is read, and no pair of the session has it. -/
def Unused (s : Session σ) (port : UInt16) : Prop :=
  s.receiver.isRegistered port = false ∧ ∀ l, port ∉ s.ports l

/-- The next streams that are handed out to a session are on ports that nobody uses. -/
def OpensUnused (x : Surroundings σ) (s : Session σ) : Prop :=
  (∀ a, x.allocate s.requests .a = .ok a → s.Unused (MediaStream.port a)) ∧
    ∀ b, x.allocate (s.requests + 1) .b = .ok b → s.Unused (MediaStream.port b)

variable {x : Surroundings σ} {s : Session σ}

/-- A stray is on the port of the stream that was handed out first. -/
theorem stray?_unused (h : s.OpensUnused x) {port : UInt16} (hstray : s.stray? x = some port) :
    s.Unused port := by
  unfold stray? at hstray
  split at hstray
  · next a b ha hb =>
    split at hstray <;> cases hstray
    exact h.1 a ha
  · cases hstray

/-- A request that gets no streams leaves no stray. -/
theorem stray?_eq_none {f : Fault}
    (h : x.allocate s.requests .a = .error f ∨ x.allocate (s.requests + 1) .b = .error f) :
    s.stray? x = none := by
  unfold stray?
  split
  · next a b ha hb =>
    rcases h with h | h
    · cases ha.symm.trans h
    · cases hb.symm.trans h
  · rfl

theorem stray?_eq {a b : σ} (ha : x.allocate s.requests .a = .ok a)
    (hb : x.allocate (s.requests + 1) .b = .ok b) :
    s.stray? x = if Pair.strands a b s.receiver then some (MediaStream.port a) else none := by
  simp only [stray?, ha, hb]

/-- A request in vain leaves at most a stray behind. -/
theorem createPair_error {f : Fault} (h : (s.createPair x).2 = .error f) (port : UInt16) :
    (s.createPair x).1.receiver.isRegistered port = true ↔
      s.receiver.isRegistered port = true ∨ s.stray? x = some port := by
  obtain ⟨_, receiver, _, hafter, hanswer⟩ := createPair_streams x s
  have hreceiver : (s.createPair x).1.receiver = receiver := congrArg Session.receiver hafter
  rcases hanswer with ⟨f', hnone, hsame, -⟩ | ⟨a, b, ha, hb, hcreate⟩
  · rw [hreceiver, hsame, stray?_eq_none hnone]
    simp
  · have hread := Pair.isRegistered_create_error ((congrArg Prod.snd hcreate).trans h) port
    rw [hcreate] at hread
    rw [hreceiver, hread, stray?_eq ha hb]
    by_cases hstrands : Pair.strands a b s.receiver = true
    · simp only [hstrands, if_true, Bool.true_and, Bool.or_eq_true, beq_iff_eq, Option.some.injEq,
        eq_comm (a := port)]
    · simp [hstrands]

/-- A request that is granted leaves no stray, and only the new pair is read besides. -/
theorem createPair_ok {p : Pair σ} (h : (s.createPair x).2 = .ok p) :
    s.stray? x = none ∧ (s.OpensUnused x → ∀ l, s.Unused (p.port l)) ∧
      (∀ port, (s.createPair x).1.receiver.isRegistered port = true →
        s.receiver.isRegistered port = true ∨ ∃ l, p.port l = port) ∧
      ∀ port, s.receiver.isRegistered port = true →
        (s.createPair x).1.receiver.isRegistered port = true := by
  obtain ⟨_, receiver, _, hafter, hanswer⟩ := createPair_streams x s
  have hreceiver : (s.createPair x).1.receiver = receiver := congrArg Session.receiver hafter
  rcases hanswer with ⟨f, -, -, herror⟩ | ⟨a, b, ha, hb, hcreate⟩
  · rw [herror] at h
    cases h
  · have hok := (congrArg Prod.snd hcreate).trans h
    obtain ⟨hstrands, hread⟩ := Pair.create_ok hok
    have hkept := fun port (hport : s.receiver.isRegistered port = true) =>
      Pair.isRegistered_create_of_isRegistered hport a b x.settings.playout
    obtain rfl := create_eq_ok (Prod.ext rfl hok)
    rw [hcreate] at hread hkept
    rw [hreceiver, stray?_eq ha hb, hstrands]
    refine ⟨rfl, fun hunused l => ?_, hread, hkept⟩
    cases l
    · exact hunused.1 a ha
    · exact hunused.2 b hb

/-- A session makes sure that it has a pair by asking for the next one, if it does so at all. -/
theorem ensurePair_next (x : Surroundings σ) (s : Session σ) (index : Nat) :
    (s.ensurePair x index = (s, .ok ()) ∧ index ≠ s.pairs.length) ∨
      index = s.pairs.length ∧
        ((∃ f, (s.createPair x).2 = .error f ∧
            s.ensurePair x index = ((s.createPair x).1, .error f)) ∨
          ∃ p, (s.createPair x).2 = .ok p ∧
            s.ensurePair x index =
              ({ (s.createPair x).1 with pairs := (s.createPair x).1.pairs ++ [p] }, .ok ())) := by
  unfold ensurePair
  split
  · next hnext =>
    refine .inr ⟨hnext, ?_⟩
    rcases s.createPair x with ⟨s', f | p⟩
    · exact .inl ⟨f, rfl, rfl⟩
    · exact .inr ⟨p, rfl, rfl⟩
  · next hnext => exact .inl ⟨rfl, hnext⟩

/-- The moments at which a session asks for a pair while the audio lines of a description are
applied. -/
def attempts (x : Surroundings σ) (now : Nat) (l : Leg) (theirs : Description) :
    List (Nat × Media) → Nat → Session σ → List (Session σ)
  | [], _, _ => []
  | (line, media) :: rest, index, s =>
    (if index = s.pairs.length then [s] else []) ++
      match s.ensurePair x index with
      | (_, .error _) => []
      | (s, .ok ()) =>
        attempts x now l theirs rest (index + 1)
          (s.modifyPair index
            (applyLine now l (s.detects.get l) (s.localSdp.get l) theirs line media))

/-- The moments at which a session asks for a pair when a description comes in. -/
def asks (x : Surroundings σ) (s : Session σ) : Update → List (Session σ)
  | .localSdp _ _ _ => []
  | .remoteSdp now l sdp =>
    if s.stopped then []
    else
      attempts x now l sdp.normal sdp.normal.audioMedia 0
        { s with remoteSdp := s.remoteSdp.set l sdp.normal }

/-- Lines fail to be applied by a request for a pair, after which nothing is done. -/
theorem applyLines_error {now : Nat} {l : Leg} {theirs : Description} {lines : List (Nat × Media)}
    {index : Nat} {f : Fault} (h : (applyLines x now l theirs lines index s).2 = .error f) :
    ∃ m ∈ attempts x now l theirs lines index s,
      (m.createPair x).2 = .error f ∧ (applyLines x now l theirs lines index s).1 =
        (m.createPair x).1 := by
  induction lines generalizing index s with
  | nil => cases h
  | cons entry rest ih =>
    rw [applyLines] at h ⊢
    rw [attempts]
    rcases ensurePair_next x s index with
      ⟨hensure, -⟩ | ⟨hnext, ⟨f', herror, hensure⟩ | ⟨p, -, hensure⟩⟩ <;>
      simp only [hensure] at h ⊢
    · obtain ⟨m, hm, hlast⟩ := ih h
      exact ⟨m, List.mem_append_right _ hm, hlast⟩
    · cases h
      exact ⟨s, by rw [if_pos hnext]; exact List.mem_cons_self, herror, rfl⟩
    · obtain ⟨m, hm, hlast⟩ := ih h
      exact ⟨m, List.mem_append_right _ hm, hlast⟩

/-- A remote description fails by a request for a pair. All that happens then is that the session
may be handed to the scheduler. -/
theorem updateRemote_error {now : Nat} {l : Leg} {sdp : Description} {admitted : Bool} {f : Fault}
    (h : (s.updateRemote x now l sdp admitted).2 = .error f) :
    ∃ m ∈ s.asks x (.remoteSdp now l sdp),
      (m.createPair x).2 = .error f ∧ (s.updateRemote x now l sdp admitted).1 =
        (m.createPair x).1.enlist admitted := by
  unfold updateRemote at h ⊢
  split at h
  · cases h
  · next hrunning =>
    obtain ⟨m, hm, herror, hafter⟩ := applyLines_error h
    rw [asks, if_neg hrunning, if_neg hrunning]
    exact ⟨m, hm, herror, congrArg (enlist · admitted) hafter⟩

end Session

/-! ## What happens to a session -/

/-- What is done to the media of a session, or to the receiver behind its back. -/
inductive Episode where
  | deed (deed : Deed)
  /-- From now on the receiver cannot read the streams on some ports. -/
  | bars (ports : List UInt16)

namespace Held

/-- The session after an episode. -/
def undergo (x : Surroundings σ) (h : Held σ) : Episode → Held σ
  | .deed deed => h.perform x deed
  | .bars ports =>
    { h with session := { h.session with receiver := { h.session.receiver with barred := ports } } }

/-- The session after a run of episodes. -/
def undergoAll (x : Surroundings σ) (h : Held σ) (episodes : List Episode) : Held σ :=
  episodes.foldl (undergo x) h

/-- The moments at which the session asks for a pair because of an episode. -/
def asks (x : Surroundings σ) (h : Held σ) : Episode → List (Session σ)
  | .deed (.operation (.update u _)) => h.session.asks x u
  | _ => []

/-- The moments at which the session asks for a pair in a run of episodes. -/
def asksAll (x : Surroundings σ) (h : Held σ) : List Episode → List (Session σ)
  | [] => []
  | episode :: rest => h.asks x episode ++ asksAll x (h.undergo x episode) rest

end Held

/-! ## What is done to one pair -/

/-- A change that leaves a pair on its ports, a stream with its socket, and the streams on all other
ports alone. -/
structure Confined (f : Change σ) : Prop where
  port : ∀ p r l, (f p r).1.port l = p.port l
  socket : ∀ p r l, MediaStream.hasSocket (p.stream l) = true →
    MediaStream.hasSocket ((f p r).1.stream l) = true
  elsewhere : ∀ p r port, (∀ l, p.port l ≠ port) →
    (f p r).2.isRegistered port = r.isRegistered port

namespace Confined

theorem comp {f g : Change σ} (hf : Confined f) (hg : Confined g) :
    Confined fun p r => g (f p r).1 (f p r).2 where
  port _ _ l := (hg.port _ _ l).trans (hf.port _ _ l)
  socket _ _ l h := hg.socket _ _ l (hf.socket _ _ l h)
  elsewhere p r port h :=
    (hg.elsewhere _ _ port fun l => (hf.port p r l).symm ▸ h l).trans (hf.elsewhere p r port h)

/-- What changes no stream and asks nothing of the receiver. -/
theorem of_stream {f : Pair σ → Pair σ} (hf : ∀ p l, (f p).stream l = p.stream l) :
    Confined fun p r => (f p, r) where
  port p _ l := congrArg MediaStream.port (hf p l)
  socket p _ l h := (congrArg MediaStream.hasSocket (hf p l)).trans h
  elsewhere _ _ _ _ := rfl

variable [LawfulStream σ] (hsocket : Steady fun s : σ => MediaStream.hasSocket s = true)
include hsocket

theorem setRelay (l : Leg) (media : Media) :
    Confined fun (p : Pair σ) r => p.setRelay r l media where
  port p r m := steady_setRelay r l media (Rtp.steady_port (p.port m)) rfl
  socket _ r _ h := steady_setRelay r l media hsocket h
  elsewhere p r port h := by
    have hother : port ≠ MediaStream.port (p.stream l.opposite) := (h l.opposite).symm
    have hremove : (r.remove (MediaStream.port (p.stream l.opposite))).1.isRegistered port =
        r.isRegistered port := by
      rw [Receiver.isRegistered_remove, bne_iff_ne.2 hother, Bool.and_true]
    simp only [Pair.setRelay]
    split
    · rcases hread : r.remove (MediaStream.port (p.stream l.opposite)) with ⟨r', _ | _⟩ <;>
        rw [hread] at hremove
      · exact hremove
      · refine Eq.trans ?_ hremove
        simp only [if_true, isRegistered_add_any, beq_eq_false_iff_ne.2 hother, Bool.and_false,
          Bool.or_false]
    · rfl

theorem renegotiate (now : Nat) (l : Leg) (detects : Bool) (ours theirs : Description)
    (line : Nat) : Confined (Session.renegotiate (σ := σ) now l detects ours theirs line) where
  port p r m :=
    steady_renegotiate r l now detects ours theirs line (Rtp.steady_port (p.port m)) rfl
  socket _ r _ h := steady_renegotiate r l now detects ours theirs line hsocket h
  elsewhere p r port h := by
    have hport := (Rtp.steady_port (p.port l)).negotiate now ours theirs line
      ((Rtp.steady_port (p.port l)).setPlayout now p.playout rfl)
    have hstream : (p.resetLeg l).1.stream l = p.stream l := stream_resetLeg p l l
    have hplayout : (p.resetLeg l).1.playout = p.playout := rfl
    simp only [Session.renegotiate, Pair.initLeg, hstream, hplayout]
    rcases hanswer : MediaStream.negotiate (MediaStream.setPlayout (p.stream l) now p.playout) now
      ours theirs line with ⟨s, f | u⟩
    · rfl
    · have hother : port ≠ MediaStream.port s := by
        rw [hanswer] at hport
        exact hport ▸ (h l).symm
      have hreattach : (Pair.reattach r s).1.isRegistered port = r.isRegistered port := by
        unfold Pair.reattach
        split
        · rfl
        · rw [Pair.isRegistered_attach, beq_eq_false_iff_ne.2 hother, Bool.and_false, Bool.or_false]
      rcases hread : Pair.reattach r s with ⟨r', f | u'⟩ <;> rw [hread] at hreattach <;>
        simp only [hread] <;> exact hreattach

/-- What is done to a pair for a line only concerns the ports of the pair. -/
theorem applyLine (now : Nat) (l : Leg) (detects : Bool) (ours theirs : Description) (line : Nat)
    (media : Media) :
    Confined (Session.applyLine (σ := σ) now l detects ours theirs line media) := by
  refine (setRelay hsocket l media).comp
    (g := fun p r => if ours.isEmpty then ((p.resetLeg l).1, r)
      else Session.renegotiate now l detects ours theirs line p r) ?_
  cases ours.isEmpty
  · exact renegotiate hsocket now l detects ours theirs line
  · exact of_stream fun p => stream_resetLeg p l

end Confined

/-! ## What is read for no pair -/

/-- The receiver reads some ports that no pair of the session has, and besides them only what the
session has. -/
structure Strays (strays : List UInt16) (s : Session σ) : Prop where
  socket : ∀ p ∈ s.pairs, ∀ l, MediaStream.hasSocket (p.stream l) = true
  known : ∀ port, s.receiver.isRegistered port = true → port ∈ strays ∨ ∃ l, port ∈ s.ports l
  read : ∀ port ∈ strays, s.receiver.isRegistered port = true
  apart : ∀ port ∈ strays, ∀ l, port ∉ s.ports l

namespace Strays

variable {x : Surroundings σ} {s : Session σ} {strays : List UInt16}

theorem modifyPair (h : Strays strays s) (index : Nat) {f : Change σ} (hf : Confined f) :
    Strays strays (s.modifyPair index f) := by
  have hports (l : Leg) : (s.modifyPair index f).ports l = s.ports l :=
    s.ports_modifyPair fun p _ => hf.port p s.receiver l
  rcases hp : s.pairs[index]? with _ | p
  · rw [Session.modifyPair, hp]
    exact h
  · have hmem := List.mem_of_getElem? hp
    have hreceiver : (s.modifyPair index f).receiver = (f p s.receiver).2 := by
      simp only [Session.modifyPair, hp]
    refine ⟨fun q hq l => ?_, fun port hread => ?_, fun port hstray => ?_, fun port hstray l => ?_⟩
    · simp only [Session.modifyPair, hp] at hq
      rcases List.mem_or_eq_of_mem_set hq with hq | rfl
      · exact h.socket q hq l
      · exact hf.socket p s.receiver l (h.socket p hmem l)
    · simp only [hports]
      by_cases hown : ∃ l, p.port l = port
      · obtain ⟨l, rfl⟩ := hown
        exact .inr ⟨l, List.mem_map_of_mem hmem⟩
      · rw [hreceiver, hf.elsewhere p _ port (not_exists.1 hown)] at hread
        exact h.known port hread
    · rw [hreceiver, hf.elsewhere p _ port fun l hl =>
        h.apart port hstray l (hl ▸ List.mem_map_of_mem hmem)]
      exact h.read port hstray
    · rw [hports]
      exact h.apart port hstray l

/-- A request in vain adds the stray that it leaves. -/
theorem createPair_error (h : Strays strays s) (hunused : s.OpensUnused x) {f : Fault}
    (herror : (s.createPair x).2 = .error f) :
    Strays (strays ++ (s.stray? x).toList) (s.createPair x).1 := by
  have hpairs := (createPair_frame x s).2
  have hread := Session.createPair_error herror
  have hports (l : Leg) : (s.createPair x).1.ports l = s.ports l := by
    rw [Session.ports, hpairs, Session.ports]
  refine ⟨hpairs.symm ▸ h.socket, fun port hport => ?_, fun port hstray => ?_,
    fun port hstray l => ?_⟩
  · simp only [hports, List.mem_append, Option.mem_toList]
    rcases (hread port).1 hport with hport | hstray
    · exact (h.known port hport).imp_left .inl
    · exact .inl (.inr hstray)
  · rw [hread]
    simp only [List.mem_append, Option.mem_toList] at hstray
    exact hstray.imp_left (h.read port)
  · rw [hports]
    simp only [List.mem_append, Option.mem_toList] at hstray
    rcases hstray with hstray | hstray
    · exact h.apart port hstray l
    · exact (Session.stray?_unused hunused hstray).2 l

/-- A request that is granted adds none. -/
theorem createPair_ok (hx : ∀ n l t, x.allocate n l = .ok t → MediaStream.hasSocket t = true)
    (h : Strays strays s) (hunused : s.OpensUnused x) {p : Pair σ}
    (hok : (s.createPair x).2 = .ok p) :
    Strays (strays ++ (s.stray? x).toList)
      { (s.createPair x).1 with pairs := (s.createPair x).1.pairs ++ [p] } := by
  have hpairs := (createPair_frame x s).2
  obtain ⟨hnone, hnew, hread, hkept⟩ := Session.createPair_ok hok
  have hports (l : Leg) : ((s.createPair x).1.pairs ++ [p]).map (·.port l) =
      s.ports l ++ [p.port l] := by
    rw [hpairs, List.map_append, List.map_singleton, Session.ports]
  rw [hnone, Option.toList_none, List.append_nil]
  refine ⟨fun q hq l => ?_, fun port hport => ?_, fun port hstray => ?_, fun port hstray l => ?_⟩
  · rw [hpairs] at hq
    rcases List.mem_append.1 hq with hq | hq
    · exact h.socket q hq l
    · obtain ⟨n, hn⟩ := ((createPair_cases x s).2 p hok).stream l
      rw [List.mem_singleton.1 hq]
      exact hx n l _ hn
  · simp only [Session.ports, hports, List.mem_append, List.mem_singleton]
    rcases hread port hport with hport | ⟨l, rfl⟩
    · exact (h.known port hport).imp_right (Exists.imp fun _ => .inl)
    · exact .inr ⟨l, .inr rfl⟩
  · exact hkept port (h.read port hstray)
  · simp only [Session.ports, hports, List.mem_append, List.mem_singleton, not_or]
    refine ⟨h.apart port hstray l, fun hsame => ?_⟩
    have hidle := (hnew hunused l).1
    rw [← hsame, h.read port hstray] at hidle
    cases hidle

theorem clearAudio (h : Strays strays s) : Strays strays s.clearAudio := by
  have hpairs := s.pairs_clearAudio
  have hread (port : UInt16) : s.clearAudio.receiver.isRegistered port = true ↔
      s.receiver.isRegistered port = true ∧ ∀ l, port ∉ s.ports l :=
    (Heard.isRegistered_dropPairs h.socket { s with pairs := [] } port).2
  have hports (l : Leg) : s.clearAudio.ports l = [] := by rw [Session.ports, hpairs, List.map_nil]
  refine ⟨fun p hp => ?_, fun port hport => ?_, fun port hstray => ?_, fun port _ l => ?_⟩
  · rw [hpairs] at hp
    cases hp
  · obtain ⟨hport, hnone⟩ := (hread port).1 hport
    exact .inl ((h.known port hport).resolve_right (not_exists.2 hnone))
  · exact (hread port).2 ⟨h.read port hstray, h.apart port hstray⟩
  · rw [hports]
    exact List.not_mem_nil

theorem enduring (strays : List UInt16) : Enduring fun s : Session σ => Strays strays s where
  of_same {s t} h hsame := by
    have hports (l : Leg) : t.ports l = s.ports l := by
      rw [Session.ports, hsame.pairs, Session.ports]
    refine ⟨hsame.pairs ▸ h.socket, fun port hport => ?_, fun port hstray => ?_, fun port hstray =>
      ?_⟩
    · simp only [hports]
      exact h.known port (hsame.receiver ▸ hport)
    · exact hsame.receiver ▸ h.read port hstray
    · simp only [hports]
      exact h.apart port hstray
  clearAudio h := h.clearAudio

theorem setAlternate (h : Strays strays s) (l : Leg) (index : Nat) (feed : Option Audio.Feed) :
    Strays strays (s.setAlternate l index feed).1 :=
  (enduring strays).of_same
    (h.modifyPair index (Confined.of_stream fun p => p.stream_setAlternate l feed))
    (s.sameMedia_setAlternate l index feed)

/-- The receiver refuses other ports than before. -/
theorem bars (h : Strays strays s) (ports : List UInt16) :
    Strays strays { s with receiver := { s.receiver with barred := ports } } :=
  ⟨h.socket, h.known, h.read, h.apart⟩

section

variable [LawfulStream σ] (hsocket : Steady fun s : σ => MediaStream.hasSocket s = true)
include hsocket

theorem applyLocal (h : Strays strays s) (now : Nat) (l : Leg) (ours theirs : Description)
    (lines : List Nat) (index : Nat) :
    Strays strays (Session.applyLocal now l ours theirs lines index s) := by
  induction lines generalizing index s with
  | nil => exact h
  | cons line rest ih =>
    have hline := Confined.renegotiate hsocket now l (s.detects.get l) ours theirs line
    exact ih (h.modifyPair index hline) (index + 1)

variable (hx : ∀ n l t, x.allocate n l = .ok t → MediaStream.hasSocket t = true)
include hx

/-- The lines of a description add the strays of the requests for pairs that they lead to. -/
theorem applyLines (h : Strays strays s) (now : Nat) (l : Leg) (theirs : Description)
    (lines : List (Nat × Media)) (index : Nat)
    (hunused : ∀ m ∈ Session.attempts x now l theirs lines index s, m.OpensUnused x) :
    Strays
      (strays ++ (Session.attempts x now l theirs lines index s).filterMap (Session.stray? x))
      (Session.applyLines x now l theirs lines index s).1 := by
  -- the strays grow with each line that asks for a pair, so that they vary in the induction
  induction lines generalizing index s strays with
  | nil =>
    rw [Session.attempts, List.filterMap_nil, List.append_nil]
    exact h
  | cons entry rest ih =>
    have hchange (ready : Session σ) := Confined.applyLine hsocket now l (ready.detects.get l)
      (ready.localSdp.get l) theirs entry.1 entry.2
    have hsingle : [s].filterMap (Session.stray? x) = (s.stray? x).toList := by
      cases hs : s.stray? x <;> simp [hs]
    rw [Session.attempts] at hunused ⊢
    rw [Session.applyLines, List.filterMap_append, ← List.append_assoc]
    rcases Session.ensurePair_next x s index with
      ⟨hensure, hother⟩ | ⟨hnext, ⟨f, herror, hensure⟩ | ⟨p, hok, hensure⟩⟩
    · simp only [hensure, if_neg hother, List.nil_append, List.filterMap_nil,
        List.append_nil] at hunused ⊢
      exact ih (h.modifyPair index (hchange s)) (index + 1) hunused
    · simp only [hensure, if_pos hnext, List.append_nil] at hunused ⊢
      have hasked := hunused s (List.mem_singleton_self s)
      rw [hsingle, List.filterMap_nil, List.append_nil]
      exact h.createPair_error hasked herror
    · simp only [hensure, if_pos hnext] at hunused ⊢
      have hasked := hunused s (List.mem_append_left _ (List.mem_singleton_self s))
      have hready := h.createPair_ok hx hasked hok
      refine ih ?_ (index + 1) fun m hm => hunused m (List.mem_append_right _ hm)
      rw [hsingle]
      exact hready.modifyPair index (hchange _)

theorem updated (h : Strays strays s) (admitted : Bool) (u : Update)
    (hunused : ∀ m ∈ s.asks x u, m.OpensUnused x) :
    Strays (strays ++ (s.asks x u).filterMap (Session.stray? x)) (s.updated x admitted u) := by
  rw [updated_eq]
  cases u with
  | localSdp now l sdp =>
    have hknown : Strays strays { s with localSdp := s.localSdp.set l sdp.normal } :=
      (enduring strays).of_same h ⟨rfl, rfl, rfl, id⟩
    rw [Session.asks, List.filterMap_nil, List.append_nil]
    split
    · exact h
    · refine (enduring strays).enlist ?_ admitted
      rw [Session.described]
      split
      · exact hknown
      · exact hknown.applyLocal hsocket now l _ _ _ 0
  | remoteSdp now l sdp =>
    have hknown : Strays strays { s with remoteSdp := s.remoteSdp.set l sdp.normal } :=
      (enduring strays).of_same h ⟨rfl, rfl, rfl, id⟩
    rw [Session.asks] at hunused ⊢
    by_cases hstopped : s.stopped = true
    · rw [if_pos hstopped, if_pos hstopped, List.filterMap_nil, List.append_nil]
      exact h
    · rw [if_neg hstopped] at hunused ⊢
      rw [if_neg hstopped]
      exact (enduring _).enlist (hknown.applyLines hsocket hx now l _ _ 0 hunused) admitted

/-- An episode adds the strays of the requests for pairs that it leads to. -/
theorem undergo {h : Held σ} (hs : Strays strays h.session) (episode : Episode)
    (hunused : ∀ m ∈ h.asks x episode, m.OpensUnused x) :
    Strays (strays ++ (h.asks x episode).filterMap (Session.stray? x))
      (h.undergo x episode).session := by
  have hquiet {t : Session σ} (ht : Strays strays t) :
      Strays (strays ++ ([] : List (Session σ)).filterMap (Session.stray? x)) t := by
    rw [List.filterMap_nil, List.append_nil]
    exact ht
  cases episode with
  | bars ports => exact hquiet (hs.bars ports)
  | deed deed =>
    cases deed with
    | operation op =>
      cases op with
      | update u admitted => exact hs.updated hsocket hx admitted u hunused
      | _ => exact hquiet ((enduring strays).step_of_ne hs fun _ _ h => by cases h)
    | alternate l index feed => exact hquiet (hs.setAlternate l index feed)
    | clearAudio => exact hquiet hs.clearAudio
    | finalize => exact hquiet ((enduring strays).finalize hs)

theorem undergoAll {h : Held σ} (hs : Strays strays h.session) (episodes : List Episode)
    (hunused : ∀ m ∈ h.asksAll x episodes, m.OpensUnused x) :
    Strays (strays ++ (h.asksAll x episodes).filterMap (Session.stray? x))
      (h.undergoAll x episodes).session := by
  induction episodes generalizing h strays with
  | nil =>
    rw [Held.asksAll, List.filterMap_nil, List.append_nil]
    exact hs
  | cons episode rest ih =>
    rw [Held.asksAll] at hunused ⊢
    rw [List.filterMap_append, ← List.append_assoc]
    exact ih (hs.undergo hsocket hx episode fun m hm => hunused m (List.mem_append_left _ hm))
      fun m hm => hunused m (List.mem_append_right _ hm)

end

/-- A port is a stray if and only if it is read and no pair has it. -/
theorem mem_iff (h : Strays strays s) (port : UInt16) :
    port ∈ strays ↔ s.receiver.isRegistered port = true ∧ ∀ l, port ∉ s.ports l :=
  ⟨fun hport => ⟨h.read port hport, h.apart port hport⟩,
    fun ⟨hread, hnone⟩ => (h.known port hread).resolve_right fun ⟨l, hl⟩ => hnone l hl⟩

end Strays

/-! ## All or nothing -/

/-- A pair that does not come to be leaves the receiver as it was, unless its first stream is
stranded. -/
theorem Pair.unchanged_iff {a b : σ} {playout : Playout.Mode} {r : Receiver} {f : Fault}
    (hidle : r.isRegistered (MediaStream.port a) = false)
    (h : (Pair.create a b playout r).2 = .error f) :
    (∀ port, (Pair.create a b playout r).1.isRegistered port = r.isRegistered port) ↔
      Pair.strands a b r = false := by
  refine ⟨fun hsame => ?_, fun hnone port => ?_⟩
  · have hread := hsame (MediaStream.port a)
    rw [Pair.isRegistered_create_error h, hidle, beq_self_eq_true, Bool.and_true,
      Bool.false_or] at hread
    exact hread
  · rw [Pair.isRegistered_create_error h, hnone, Bool.false_and, Bool.or_false]

/-- A request in vain leaves the receiver as it was, unless it leaves a stray. -/
theorem Session.unchanged_iff {x : Surroundings σ} {s : Session σ} {f : Fault}
    (hidle : ∀ a, x.allocate s.requests .a = .ok a →
      s.receiver.isRegistered (MediaStream.port a) = false)
    (h : (s.createPair x).2 = .error f) :
    (∀ port, (s.createPair x).1.receiver.isRegistered port = s.receiver.isRegistered port) ↔
      s.stray? x = none := by
  obtain ⟨_, receiver, _, hafter, hanswer⟩ := createPair_streams x s
  have hreceiver : (s.createPair x).1.receiver = receiver := congrArg Session.receiver hafter
  rcases hanswer with ⟨f', hnone, hsame, -⟩ | ⟨a, b, ha, hb, hcreate⟩
  · rw [hreceiver, hsame]
    exact iff_of_true (fun _ => rfl) (stray?_eq_none hnone)
  · have hpair := Pair.unchanged_iff (hidle a ha) ((congrArg Prod.snd hcreate).trans h)
    rw [hcreate] at hpair
    rw [hreceiver, hpair, stray?_eq ha hb]
    cases Pair.strands a b s.receiver <;> simp

/-- **Main theorem**: a pair comes to be with both of its streams or not at all, but where it does
not, what was done for it is undone only if its first stream is not stranded: read already when the
receiver refuses the second one. That holds of a pair, and of the request for a pair by which an
update fails.

Nor is it undone later. Whatever is done to a session, and whatever ports its receiver cannot read
from time to time, the ports that are read for no pair of the session are the strays of its requests
for pairs so far. That holds where every stream has a socket that it keeps, on a port that is not
used yet. -/
theorem creation_undone_iff [LawfulStream σ] :
    (∀ (a b : σ) (playout : Playout.Mode) (r : Receiver) (f : Fault),
      r.isRegistered (MediaStream.port a) = false → (Pair.create a b playout r).2 = .error f →
        ((∀ port, (Pair.create a b playout r).1.isRegistered port = r.isRegistered port) ↔
          Pair.strands a b r = false)) ∧
      (∀ (x : Surroundings σ) (s : Session σ) (now : Nat) (l : Leg) (sdp : Description)
        (admitted : Bool) (f : Fault), (s.updateRemote x now l sdp admitted).2 = .error f →
          ∃ m ∈ s.asks x (.remoteSdp now l sdp),
            (m.createPair x).2 = .error f ∧
              (s.updateRemote x now l sdp admitted).1 = (m.createPair x).1.enlist admitted ∧
              ((∀ a, x.allocate m.requests .a = .ok a →
                  m.receiver.isRegistered (MediaStream.port a) = false) →
                ((∀ port, (m.createPair x).1.receiver.isRegistered port =
                  m.receiver.isRegistered port) ↔ m.stray? x = none))) ∧
      ∀ (x : Surroundings σ) (id : SessionId) (callgroup : String) (detects : PerLeg Bool)
        (barred : List UInt16) (episodes : List Episode),
        let start : Held σ := Held.fresh id callgroup detects (Receiver.idle barred)
        let s := (start.undergoAll x episodes).session
        Steady (fun t : σ => MediaStream.hasSocket t = true) →
          (∀ n l t, x.allocate n l = .ok t → MediaStream.hasSocket t = true) →
          (∀ m ∈ start.asksAll x episodes, m.OpensUnused x) →
          ∀ port, (s.receiver.isRegistered port = true ∧ ∀ l, port ∉ s.ports l) ↔
            port ∈ (start.asksAll x episodes).filterMap (Session.stray? x) := by
  refine ⟨fun a b playout r f => Pair.unchanged_iff, fun x s now l sdp admitted f h => ?_,
    fun x id callgroup detects barred episodes => ?_⟩
  · obtain ⟨m, hm, herror, hafter⟩ := Session.updateRemote_error h
    exact ⟨m, hm, herror, hafter, fun hidle => Session.unchanged_iff hidle herror⟩
  · intro start s hsocket hx hunused port
    have hstart : Strays [] start.session :=
      ⟨fun _ hp => absurd hp List.not_mem_nil, fun _ hread => (Bool.false_ne_true hread).elim,
        fun _ hstray => absurd hstray List.not_mem_nil,
        fun _ hstray => absurd hstray List.not_mem_nil⟩
    exact ((hstart.undergoAll hsocket hx episodes hunused).mem_iff port).symm

/-- Two audio lines come in while the receiver refuses the second stream of the second pair, and
once more when it does not. Then the session is stopped. -/
def sampleEpisodes : List Episode :=
  [.bars [5003], .deed (.operation (.update (.remoteSdp 0 .a (sampleLines [[0], [8]])) true)),
    .bars [], .deed (.operation (.update (.remoteSdp 1 .a (sampleLines [[0], [8]])) true)),
    .deed (.operation (.stop false))]

/-- A session whose receiver refuses the second stream that is handed out. -/
def refusedSession : Session Rehearsal.ScriptedStream :=
  Session.fresh ⟨"s"⟩ "g" ⟨false, true⟩ (Receiver.idle [5001])

theorem creation_undone_iff_sample :
    let a := Rehearsal.ScriptedStream.onPort 30000
    let b := Rehearsal.ScriptedStream.onPort 30002
    let r := Receiver.idle [30002]
    let refusal : Fault := .stream "cannot receive on 30002"
    let x := plentifulSurroundings
    let lines := sampleLines [[0], [8]]
    let refusal' : Fault := .stream "cannot receive on 5001"
    let start : Held Rehearsal.ScriptedStream :=
      Held.fresh ⟨"s"⟩ "g" ⟨false, true⟩ (Receiver.idle [])
    let s := (start.undergoAll x sampleEpisodes).session
    (r.isRegistered (MediaStream.port a) = false ∧
        (Pair.create a b .adaptive r).2 = .error refusal ∧
        ¬ ∀ port, (Pair.create a b .adaptive r).1.isRegistered port = r.isRegistered port) ∧
      ((refusedSession.updateRemote x 0 .a lines true).2 = .error refusal' ∧
        ∃ m ∈ refusedSession.asks x (.remoteSdp 0 .a lines),
          (∀ t, x.allocate m.requests .a = .ok t →
            m.receiver.isRegistered (MediaStream.port t) = false) ∧
          ¬ ∀ port, (m.createPair x).1.receiver.isRegistered port =
            m.receiver.isRegistered port) ∧
      Steady (fun t : Rehearsal.ScriptedStream => MediaStream.hasSocket t = true) ∧
      (∀ n l t, x.allocate n l = .ok t → MediaStream.hasSocket t = true) ∧
      (∀ m ∈ start.asksAll x sampleEpisodes, m.OpensUnused x) ∧
      s.receiver.isRegistered 5002 = true ∧ ∀ l, 5002 ∉ s.ports l := by
  intro a b r refusal x lines refusal' start s
  obtain ⟨hpair, hupdate, hrun⟩ := creation_undone_iff (σ := Rehearsal.ScriptedStream)
  have hrefused : (Pair.create a b .adaptive r).2 = .error refusal := by
    show (Pair.create (Rehearsal.ScriptedStream.onPort 30000)
      (Rehearsal.ScriptedStream.onPort 30002) .adaptive (Receiver.idle [30002])).2 =
        .error (.stream "cannot receive on 30002")
    rfl
  have hfailed : (refusedSession.updateRemote x 0 .a lines true).2 = .error refusal' := by
    show (refusedSession.updateRemote plentifulSurroundings 0 .a (sampleLines [[0], [8]]) true).2 =
      .error (.stream "cannot receive on 5001")
    rfl
  have hsocket : Steady fun t : Rehearsal.ScriptedStream => MediaStream.hasSocket t = true :=
    ⟨fun _ _ h => h, fun h => h, fun _ _ _ _ h => h, fun _ _ h => h⟩
  have hx : ∀ n l t, x.allocate n l = .ok t → MediaStream.hasSocket t = true := by
    intro n l t h
    cases h
    rfl
  refine ⟨⟨by decide, hrefused, ?_⟩, ⟨hfailed, ?_⟩, hsocket, hx, ?_⟩
  · rw [hpair a b .adaptive r refusal (by decide) hrefused]
    decide
  · obtain ⟨m, hm, -, -, hunchanged⟩ := hupdate x refusedSession 0 .a lines true refusal' hfailed
    have hasked : ∀ m ∈ refusedSession.asks x (.remoteSdp 0 .a lines), m.stray? x ≠ none ∧
        m.receiver.isRegistered (UInt16.ofNat (5000 + m.requests)) = false := by
      decide
    have hidle : ∀ t, x.allocate m.requests .a = .ok t →
        m.receiver.isRegistered (MediaStream.port t) = false := by
      intro t ht
      cases ht
      exact (hasked m hm).2
    exact ⟨m, hm, hidle, fun hsame => (hasked m hm).1 ((hunchanged hidle).1 hsame)⟩
  · have hasked : ∀ m ∈ start.asksAll x sampleEpisodes, ∀ n ∈ [m.requests, m.requests + 1],
        m.receiver.isRegistered (UInt16.ofNat (5000 + n)) = false ∧
          UInt16.ofNat (5000 + n) ∉ m.ports .a ∧ UInt16.ofNat (5000 + n) ∉ m.ports .b := by
      decide
    have hunused : ∀ m ∈ start.asksAll x sampleEpisodes, m.OpensUnused x := by
      intro m hm
      refine ⟨fun t ht => ?_, fun t ht => ?_⟩ <;> cases ht
      · exact (hasked m hm m.requests (by simp)).imp_right Leg.forall_iff.2
      · exact (hasked m hm (m.requests + 1) (by simp)).imp_right Leg.forall_iff.2
    exact ⟨hunused,
      (hrun x ⟨"s"⟩ "g" ⟨false, true⟩ [] sampleEpisodes hsocket hx hunused 5002).2 (by decide)⟩

/-- A receiver reads the first stream of a pair from then on although it refused the second one, and
there is no pair. -/
theorem Pair.creation_not_undone :
    ¬ ∀ (a b : Rehearsal.ScriptedStream) (playout : Playout.Mode) (r : Receiver) (f : Fault),
      r.isRegistered (MediaStream.port a) = false → r.isRegistered (MediaStream.port b) = false →
        (Pair.create a b playout r).2 = .error f →
          ∀ port, (Pair.create a b playout r).1.isRegistered port = r.isRegistered port := by
  intro hundone
  have hsame := hundone (Rehearsal.ScriptedStream.onPort 30000)
    (Rehearsal.ScriptedStream.onPort 30002) .adaptive (Receiver.idle [30002])
    (.stream "cannot receive on 30002") (by decide) (by decide) rfl 30000
  revert hsame
  decide

end CallBridge.Bridge
