import CallBridge.Proofs.Rtp.Relaying
import Mathlib.Data.List.Chain

/-!
# The numbers of sent datagrams

A stream sends what it encodes and what it passes on under one source identifier, but it numbers
the two by counters of their own, which start at unrelated numbers. Each kind of datagram is
numbered without gap or repetition in the order in which the socket is given them; the datagrams of
both kinds together are not.

A socket may drop a datagram or refuse it. The number of this datagram is used up all the same, so
it is missing among those that get on their way.

Results:
* `transmit_cases`: what is given to the socket takes its number from the counter of its kind.
* `numbered_by_kind`: the numbers in whatever order audio is put and packets are passed on.
* `not_consecutive_between`, `not_numbered_together`: there is no one numbering for both kinds.
-/

namespace CallBridge.Rtp

/-! ## Counting -/

/-- The numbers from one up to another, which is not among them; behind the last comes 0. -/
inductive Counts : UInt16 → List UInt16 → UInt16 → Prop
  | done (n : UInt16) : Counts n [] n
  | next {n stop : UInt16} {ns : List UInt16} : Counts (n + 1) ns stop → Counts n (n :: ns) stop

/-- Each number is by one greater than the number before it. -/
def Consecutive (ns : List UInt16) : Prop := ns.IsChain fun m n => n = m + 1

namespace Counts

theorem trans {a b c : UInt16} {ms ns : List UInt16} (h : Counts a ms b) (h' : Counts b ns c) :
    Counts a (ms ++ ns) c := by
  induction h with
  | done _ => exact h'
  | next _ ih => exact .next (ih h')

theorem consecutive {a b : UInt16} {ns : List UInt16} (h : Counts a ns b) : Consecutive ns := by
  induction h with
  | done _ => exact .nil
  | next h ih =>
    cases h with
    | done _ => exact .singleton _
    | next _ => exact .cons_cons rfl ih

theorem head {a b n : UInt16} {ns : List UInt16} (h : Counts a (n :: ns) b) :
    n = a ∧ Counts (n + 1) ns b := by
  cases h with
  | next h => exact ⟨rfl, h⟩

/-- Behind some numbers the counting goes on as many numbers later. -/
theorem behind {a b : UInt16} {ms ns : List UInt16} (h : Counts a (ms ++ ns) b) :
    Counts (a + UInt16.ofNat ms.length) ns b := by
  induction ms generalizing a with
  | nil => simpa using h
  | cons m ms ih =>
    obtain ⟨rfl, hrest⟩ := h.head
    rw [List.length_cons, Nat.add_comm, UInt16.ofNat_add, ← UInt16.add_assoc]
    exact ih hrest

end Counts

/-! ## Sending -/

/-- What makes a stream send: audio put to it, or a packet that it passes on. -/
inductive Sending where
  | put (pcm : List UInt8)
  | relay (packet : Packet)

/-- Whether something that is sent was sent before by the other side. -/
def Sending.isRelay : Sending → Bool
  | put _ => false
  | relay _ => true

/-- The counter by which a stream numbers datagrams of a kind. -/
def Identity.counter (i : Identity) (relayed : Bool) : UInt16 :=
  if relayed then i.relaySequence else i.sequence

/-- The numbers of those among some datagrams that are of a kind, in order. -/
def numbersOf (relayed : Bool) (ds : List Datagram) : List UInt16 :=
  (ds.filter (·.relayed = relayed)).map (·.packet.sequence)

theorem numbersOf_append (relayed : Bool) (ds ds' : List Datagram) :
    numbersOf relayed (ds ++ ds') = numbersOf relayed ds ++ numbersOf relayed ds' := by
  simp [numbersOf]

theorem numbersOf_cons {relayed : Bool} {d : Datagram} (h : d.relayed = relayed)
    (ds : List Datagram) :
    numbersOf relayed (d :: ds) = d.packet.sequence :: numbersOf relayed ds := by
  simp [numbersOf, h]

theorem length_numbersOf (relayed : Bool) (ds : List Datagram) :
    (numbersOf relayed ds).length = ds.countP (·.relayed = relayed) := by
  rw [numbersOf, List.length_map, List.countP_eq_length_filter]

/-- Two datagrams of one kind lie as many numbers apart as there are datagrams of that kind from the
one to the other. -/
theorem sequence_apart {d d' : Datagram} (hkind : d'.relayed = d.relayed)
    {before between after : List Datagram} {a b : UInt16}
    (h : Counts a (numbersOf d.relayed (before ++ d :: (between ++ d' :: after))) b) :
    d'.packet.sequence =
      d.packet.sequence + 1 + UInt16.ofNat (between.countP (·.relayed = d.relayed)) := by
  rw [numbersOf_append, numbersOf_cons rfl, numbersOf_append, numbersOf_cons hkind] at h
  rw [← length_numbersOf]
  exact h.behind.head.2.behind.head.1

/-- A datagram takes its number from the counter of its kind, which moves on, and leaves the other
counter and the source identifier alone. -/
structure Identity.Stamps (i i' : Identity) (d : Datagram) : Prop where
  source : d.packet.ssrc = i.ssrc
  kept : i'.ssrc = i.ssrc
  counts : ∀ relayed, Counts (i.counter relayed) (numbersOf relayed [d]) (i'.counter relayed)

namespace AudioStream

/-- The stream after it sent something. -/
def transmit (s : AudioStream) : Sending → AudioStream
  | .put pcm => (s.put pcm).1
  | .relay packet => (s.relay packet).1

/-- The stream after it sent one thing after the other. -/
def transmitAll (s : AudioStream) (es : List Sending) : AudioStream := es.foldl transmit s

/-- Those of some datagrams, given to the socket one after the other, that it takes. -/
def taken (s : AudioStream) : List Datagram → List Datagram
  | [] => []
  | d :: ds => s.carried d ++ { s with given := s.given + 1 }.taken ds

theorem taken_sublist (s : AudioStream) (ds : List Datagram) : (s.taken ds).Sublist ds := by
  induction ds generalizing s with
  | nil => exact .slnil
  | cons d ds ih =>
    have hfirst : (s.carried d).Sublist [d] := by
      unfold carried
      split
      · exact .refl _
      · exact List.nil_sublist _
    exact hfirst.append (ih _)

/-- What a socket takes is told by the host, the place and the datagrams that it was given. -/
theorem taken_frame (s : AudioStream) (i : Identity) (sent ds : List Datagram) :
    { s with identity := i, outbox := sent }.taken ds = s.taken ds := by
  induction ds generalizing s with
  | nil => rfl
  | cons d ds ih => exact congrArg (s.carried d ++ ·) (ih { s with given := s.given + 1 })

theorem taken_append (s : AudioStream) (ds ds' : List Datagram) :
    s.taken (ds ++ ds') = s.taken ds ++ { s with given := s.given + ds.length }.taken ds' := by
  induction ds generalizing s with
  | nil => rfl
  | cons d ds ih =>
    rw [List.cons_append, taken, ih, taken, List.append_assoc, List.length_cons, Nat.add_assoc,
      Nat.add_comm 1]

/-- Audio that is put is given to the socket once, and then its number is used up. -/
theorem put_reachable {s : AudioStream} {a : Agreement} {target : Net.Endpoint}
    (h : s.agreement = some a) (hr : a.remote = some target) (pcm : List UInt8) :
    (s.put pcm).1 = { s.countPacket (Audio.samples pcm).length with
      given := s.given + 1
      outbox := s.outbox ++ s.carried ⟨target, s.packetOf a (Audio.samples pcm), false⟩ } := by
  simp only [put, h, hr]
  exact send_eq _ _

/-- Without a remote side nothing happens; with one, a datagram is stamped and given to the
socket. -/
theorem transmit_cases {s : AudioStream} (hsource : s.settings.relay.keepSsrc = false)
    (hnumber : s.settings.relay.keepSequence = false) (e : Sending) :
    (s.remote? = none ∧ s.transmit e = s) ∨
      ∃ (d : Datagram) (i : Identity), s.remote? = some d.target ∧ d.relayed = e.isRelay ∧
        s.identity.Stamps i d ∧ s.transmit e =
          { s with identity := i, given := s.given + 1, outbox := s.outbox ++ s.carried d } := by
  cases e with
  | put pcm =>
    rcases Option.eq_none_or_eq_some s.agreement with hagreement | ⟨a, hagreement⟩
    · exact .inl
        ⟨by simp [remote?, hagreement], congrArg Prod.fst (put_unnegotiated hagreement pcm)⟩
    have hremote : s.remote? = a.remote := by simp [remote?, hagreement]
    rcases Option.eq_none_or_eq_some a.remote with htarget | ⟨target, htarget⟩
    · exact .inl ⟨hremote.trans htarget, congrArg Prod.fst (put_unreachable hagreement htarget pcm)⟩
    refine .inr ⟨⟨target, s.packetOf a (Audio.samples pcm), false⟩,
      (s.countPacket (Audio.samples pcm).length).identity, hremote.trans htarget, rfl,
      ⟨rfl, rfl, fun relayed => ?_⟩, put_reachable hagreement htarget pcm⟩
    cases relayed with
    | false => exact .next (.done _)
    | true => exact .done _
  | relay packet =>
    rcases Option.eq_none_or_eq_some s.remote? with htarget | ⟨target, htarget⟩
    · exact .inl ⟨htarget, congrArg Prod.fst (relay_unreachable htarget packet)⟩
    refine .inr ⟨⟨target, s.readdress packet, true⟩, s.identityAfterRelay, htarget, rfl,
      ⟨by simp [readdress, hsource], rfl, fun relayed => ?_⟩, relay_reachable htarget packet⟩
    have hstamped : (s.readdress packet).sequence = s.identity.relaySequence := by
      simp [readdress, hnumber]
    have hcounted : s.identityAfterRelay.relaySequence = s.identity.relaySequence + 1 := by
      simp [identityAfterRelay, hnumber]
    cases relayed with
    | false => exact .done _
    | true =>
      show Counts s.identity.relaySequence [(s.readdress packet).sequence]
        s.identityAfterRelay.relaySequence
      rw [hstamped, hcounted]
      exact .next (.done _)

/-! ## A run -/

/-- What a stream gave to its socket between two states of it: datagrams that carry its source
identifier and were stamped one after the other. Those that the socket took are in the outbox. -/
structure Sent (s s' : AudioStream) (kinds : List Bool) (ds : List Datagram) : Prop where
  frame : s' = { s with
    identity := s'.identity, given := s.given + ds.length, outbox := s.outbox ++ s.taken ds }
  kept : s'.identity.ssrc = s.identity.ssrc
  source : ∀ d ∈ ds, d.packet.ssrc = s.identity.ssrc
  kinds : ds.map (·.relayed) = if s.remote?.isSome then kinds else []
  counts : ∀ relayed,
    Counts (s.identity.counter relayed) (numbersOf relayed ds) (s'.identity.counter relayed)

namespace Sent

theorem refl (s : AudioStream) : Sent s s [] [] where
  frame := by simp [taken]
  kept := rfl
  source := by simp
  kinds := by simp
  counts _ := .done _

theorem settings {s s' : AudioStream} {kinds : List Bool} {ds : List Datagram}
    (h : Sent s s' kinds ds) : s'.settings = s.settings := by rw [h.frame]

theorem remote {s s' : AudioStream} {kinds : List Bool} {ds : List Datagram}
    (h : Sent s s' kinds ds) : s'.remote? = s.remote? := by rw [h.frame]; rfl

theorem trans {s s' s'' : AudioStream} {kinds kinds' : List Bool} {ds ds' : List Datagram}
    (h : Sent s s' kinds ds) (h' : Sent s' s'' kinds' ds') :
    Sent s s'' (kinds ++ kinds') (ds ++ ds') where
  frame := by
    have htaken : s'.taken ds' = { s with given := s.given + ds.length }.taken ds' := by
      rw [h.frame]
      exact taken_frame { s with given := s.given + ds.length } _ _ ds'
    conv_lhs => rw [h'.frame, htaken, h.frame]
    rw [taken_append, List.length_append, List.append_assoc, Nat.add_assoc]
  kept := h'.kept.trans h.kept
  source d hd := by
    rcases List.mem_append.1 hd with hd | hd
    · exact h.source d hd
    · exact (h'.source d hd).trans h.kept
  kinds := by
    rw [List.map_append, h.kinds, h'.kinds, h.remote]
    split <;> rfl
  counts relayed := by
    rw [numbersOf_append]
    exact (h.counts relayed).trans (h'.counts relayed)

theorem step {s : AudioStream} (hsource : s.settings.relay.keepSsrc = false)
    (hnumber : s.settings.relay.keepSequence = false) (e : Sending) :
    ∃ ds, Sent s (s.transmit e) [e.isRelay] ds := by
  rcases transmit_cases hsource hnumber e with
    ⟨hremote, hsame⟩ | ⟨d, i, hremote, hkind, hstamps, hsent⟩
  · rw [hsame]
    refine ⟨[], ?_, rfl, by simp, by simp [hremote], fun _ => .done _⟩
    simp [taken]
  · rw [hsent]
    refine ⟨[d], ?_, hstamps.kept, ?_, by simp [hremote, hkind], hstamps.counts⟩
    · rw [taken, taken, List.append_nil]
      rfl
    · exact fun d' hd' => List.mem_singleton.1 hd' ▸ hstamps.source

theorem run {s : AudioStream} (hsource : s.settings.relay.keepSsrc = false)
    (hnumber : s.settings.relay.keepSequence = false) (es : List Sending) :
    ∃ ds, Sent s (s.transmitAll es) (es.map Sending.isRelay) ds := by
  induction es generalizing s with
  | nil => exact ⟨[], refl s⟩
  | cons e es ih =>
    obtain ⟨ds, hstep⟩ := step hsource hnumber e
    obtain ⟨ds', hrun⟩ := ih (s := s.transmit e) (by rw [hstep.settings, hsource])
      (by rw [hstep.settings, hnumber])
    exact ⟨ds ++ ds', hstep.trans hrun⟩

end Sent

/-- **Main theorem**: sent datagrams are numbered by their kind.

In whatever order audio is put to a stream with a remote side and packets are passed on by it, each
time one datagram is given to the socket; those that the socket takes are sent. All of them carry
the stream's own source identifier. Each datagram uses up one number of its kind, whether the socket
takes it or not. So from a datagram to a later one of its kind the number goes up by one, and by one
more for each datagram of that kind in between; behind 65535 comes 0. Where the socket takes all of
them, the numbers of each kind are sent without a gap. -/
theorem numbered_by_kind {s : AudioStream} (hsource : s.settings.relay.keepSsrc = false)
    (hnumber : s.settings.relay.keepSequence = false) (es : List Sending) :
    ∃ given, (s.transmitAll es).outbox = s.outbox ++ s.taken given ∧
      given.map (·.relayed) = (if s.remote?.isSome then es.map Sending.isRelay else []) ∧
      (∀ d ∈ given, d.packet.ssrc = s.identity.ssrc) ∧
      (∀ relayed, Counts (s.identity.counter relayed) (numbersOf relayed given)
        ((s.transmitAll es).identity.counter relayed)) ∧
      (∀ before d between d' after, given = before ++ d :: (between ++ d' :: after) →
        d'.relayed = d.relayed → d'.packet.sequence =
          d.packet.sequence + 1 + UInt16.ofNat (between.countP (·.relayed = d.relayed))) ∧
      (s.taken given = given → ∀ relayed, Consecutive (numbersOf relayed (s.taken given))) := by
  obtain ⟨given, h⟩ := Sent.run hsource hnumber es
  refine ⟨given, congrArg outbox h.frame, h.kinds, h.source, h.counts, ?_, fun hall relayed => ?_⟩
  · rintro before d between d' after rfl hkind
    exact sequence_apart hkind (h.counts d.relayed)
  · rw [hall]
    exact (h.counts relayed).consecutive

/-- A negotiated stream that numbers by itself. -/
def musicStream : AudioStream := Bridge.Pair.eventPair.stream .b

/-- The same stream with a socket that is busy when it is given the third datagram. -/
def busyStream : AudioStream :=
  { musicStream with network := ⟨fun n _ _ _ => if n = 2 then .busy else .taken⟩ }

/-- Hold music goes on while two telephone events are passed on. -/
def musicWithEvents : List Sending :=
  [.put [0, 0], .relay Packet.sample, .put [0, 0], .relay Packet.sample, .put [0, 0]]

/-- The number 41 was that of the datagram that was dropped. -/
theorem numbered_by_kind_music :
    ∃ given, (busyStream.transmitAll musicWithEvents).outbox = busyStream.taken given ∧
      given.map (·.relayed) = [false, true, false, true, false] ∧
      Counts 40 (numbersOf false given) 43 ∧
      numbersOf false (busyStream.taken given) = [40, 42] ∧
      numbersOf true (busyStream.taken given) = [65535, 0] := by
  obtain ⟨given, hsent, hkinds, -, hcounts, -⟩ :=
    numbered_by_kind (s := busyStream) rfl rfl musicWithEvents
  have hempty : busyStream.outbox = [] := rfl
  rw [hempty, List.nil_append] at hsent
  refine ⟨given, hsent, hkinds, hcounts false, ?_, ?_⟩
  · rw [← hsent]
    rfl
  · rw [← hsent]
    rfl

/-! ## Both kinds together -/

/-- A packet that is passed on between two frames of audio leaves a number that does not lie between
theirs, whatever the counters were. -/
theorem not_consecutive_between {s : AudioStream} (hsource : s.settings.relay.keepSsrc = false)
    (hnumber : s.settings.relay.keepSequence = false) (pcm pcm' : List UInt8) (packet : Packet)
    {sent : List Datagram}
    (h : (s.transmitAll [.put pcm, .relay packet, .put pcm']).outbox = s.outbox ++ sent)
    (hall : sent.length = 3) : ¬ Consecutive (sent.map (·.packet.sequence)) := by
  obtain ⟨ds, hsent⟩ := Sent.run hsource hnumber [.put pcm, .relay packet, .put pcm']
  obtain rfl : s.taken ds = sent :=
    List.append_cancel_left ((congrArg outbox hsent.frame).symm.trans h)
  have hremote : s.remote?.isSome = true := by
    by_contra hnone
    have hkinds := hsent.kinds
    rw [if_neg hnone, List.map_eq_nil_iff] at hkinds
    rw [hkinds] at hall
    cases hall
  have hkinds := hsent.kinds
  rw [if_pos hremote] at hkinds
  have hlength : ds.length = 3 := by simpa using congrArg List.length hkinds
  rw [(s.taken_sublist ds).eq_of_length (hall.trans hlength.symm)]
  intro htogether
  obtain ⟨x, y, z, rfl⟩ := List.length_eq_three.1 hlength
  simp only [List.map_cons, List.map_nil, Sending.isRelay, List.cons.injEq, and_true] at hkinds
  obtain ⟨hx, hy, hz⟩ := hkinds
  have hcounts : Counts _ (numbersOf x.relayed ([] ++ x :: ([y] ++ z :: []))) _ :=
    hsent.counts x.relayed
  have haudio : z.packet.sequence = x.packet.sequence + 1 := by
    simpa [hx, hy] using sequence_apart (hz.trans hx.symm) hcounts
  obtain ⟨hxy, hyz⟩ : y.packet.sequence = x.packet.sequence + 1 ∧
      z.packet.sequence = y.packet.sequence + 1 := by
    simpa [Consecutive] using htogether
  rw [← haudio] at hxy
  rw [hxy] at hyz
  have hzero : z.packet.sequence.toNat = (z.packet.sequence.toNat + 1) % 65536 := by
    conv_lhs => rw [hyz, UInt16.toNat_add]
    rfl
  omega

theorem not_numbered_together :
    ¬ ∀ (s : AudioStream) (es : List Sending), s.isInitialized = true →
      s.settings.relay.keepSsrc = false → s.settings.relay.keepSequence = false →
      ∀ sent, (s.transmitAll es).outbox = s.outbox ++ sent →
        (∀ d ∈ sent, d.packet.ssrc = s.identity.ssrc) ∧
          Consecutive (sent.map (·.packet.sequence)) := by
  intro h
  exact not_consecutive_between (s := musicStream) rfl rfl [0, 0] [0, 0] Packet.sample rfl rfl
    (h musicStream [.put [0, 0], .relay Packet.sample, .put [0, 0]] rfl rfl rfl _ rfl).2

end AudioStream

end CallBridge.Rtp
