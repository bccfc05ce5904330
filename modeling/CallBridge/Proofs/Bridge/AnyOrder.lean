import CallBridge.Proofs.Bridge.Offers

/-!
# Four descriptions in any order

A call is set up by four descriptions, a local and a remote one for each leg, and nobody says which
of them comes first. Remote descriptions open pairs and go through their own lines, local ones find
what is there and go through theirs, and the pairs of one leg may be opened by the other one.

What a session makes of them can be said without the order: how many pairs there are, what each
stream relays, and for which lines of which descriptions it was negotiated last. All this is put in
terms of the descriptions that the session knows so far. Each update that brings a description for
the first time keeps it true, and so the order drops out.

Results:
* `Agreed.update`: a description that comes in for the first time.
* `agreed_in_any_order`: four descriptions, in whichever order they come in.
-/

namespace CallBridge.Sdp

theorem Description.audioMedia_of_isEmpty {d : Description} (h : d.isEmpty = true) :
    d.audioMedia = [] := by
  rw [isEmpty, List.isEmpty_iff] at h
  rw [audioMedia, h]
  rfl

/-- Which lines are audio lines is said by the kinds alone. -/
theorem Description.map_fst_audioMedia (d : Description) :
    d.audioMedia.map (·.1) =
      ((d.media.map (·.kind)).zipIdx.filter fun e => e.1 = .audio).map (·.2) := by
  simp only [audioMedia, List.zipIdx_map, List.filter_map, List.map_map]
  rfl

/-- Where the audio lines are depends on the kinds of all lines only. -/
theorem Description.map_fst_audioMedia_congr {d d' : Description}
    (h : d.media.map (·.kind) = d'.media.map (·.kind)) :
    d.audioMedia.map (·.1) = d'.audioMedia.map (·.1) := by
  rw [map_fst_audioMedia, map_fst_audioMedia, h]

theorem Description.map_fst_audioMedia_normal (d : Description) :
    d.normal.audioMedia.map (·.1) = d.audioMedia.map (·.1) := by
  rw [audioMedia_normal, List.map_map]
  rfl

/-- The normal form has its audio lines where they were. -/
theorem Description.exists_audioMedia_normal {d : Description} {i : Nat} {Q : Nat → Prop} :
    (∃ entry, d.normal.audioMedia[i]? = some entry ∧ Q entry.1) ↔
      ∃ entry : Nat × Media, d.audioMedia[i]? = some entry ∧ Q entry.1 := by
  rw [audioMedia_normal, List.getElem?_map]
  cases d.audioMedia[i]? <;> simp

@[simp] theorem Description.isEmpty_normal (d : Description) : d.normal.isEmpty = d.isEmpty :=
  List.isEmpty_map

end CallBridge.Sdp

namespace CallBridge.Bridge

open Rtp (MediaStream LawfulStream Receiver Steady)
open Sdp (Description Media)

/-! ## Slots -/

/-- Which of the four descriptions it is. -/
inductive Slot where
  | ours (l : Leg)
  | theirs (l : Leg)
deriving DecidableEq

/-- The description that an update brings is this one of the four. -/
def Update.slot : Update → Slot
  | .localSdp _ l _ => .ours l
  | .remoteSdp _ l _ => .theirs l

/-- The description that an update brings. -/
def Update.sdp : Update → Description
  | .localSdp _ _ sdp => sdp
  | .remoteSdp _ _ sdp => sdp

variable {σ : Type}

namespace Session

/-- What a session knows of the four descriptions. -/
def description (s : Session σ) : Slot → Description
  | .ours l => s.localSdp.get l
  | .theirs l => s.remoteSdp.get l

theorem description_noted (s : Session σ) (u : Update) (slot : Slot) :
    (s.noted u).description slot = if slot = u.slot then u.sdp.normal else s.description slot := by
  cases u with
  | localSdp now l sdp =>
    cases slot with
    | ours m => cases l <;> cases m <;> rfl
    | theirs m => rfl
  | remoteSdp now l sdp =>
    cases slot with
    | ours m => rfl
    | theirs m => cases l <;> cases m <;> rfl

theorem knowsAll_iff (s : Session σ) :
    s.knowsAll = true ↔ ∀ slot, (s.description slot).isEmpty = false := by
  have hlegs : s.knowsAll = true ↔ ∀ l ∈ Leg.both,
      (s.localSdp.get l).isEmpty = false ∧ (s.remoteSdp.get l).isEmpty = false := by
    simp only [knowsAll, List.all_eq_true, Bool.and_eq_true, Bool.not_eq_true']
  rw [hlegs]
  constructor
  · intro h slot
    cases slot with
    | ours l => exact (h l (Leg.mem_both l)).1
    | theirs l => exact (h l (Leg.mem_both l)).2
  · intro h l _
    exact ⟨h (.ours l), h (.theirs l)⟩

end Session

variable [MediaStream σ]

/-! ## Negotiation -/

/-- Whether a negotiation succeeds depends on the descriptions and the line alone. -/
def Answers (init : Description → Description → Nat → Bool) (s : σ) : Prop :=
  ∀ now ours theirs line, (MediaStream.negotiate s now ours theirs line).2.isOk =
    init ours theirs line

/-- The stream was negotiated with success, and since then only told what to relay. -/
inductive NegotiatedFor (ours theirs : Description) (line : Nat) : σ → Prop where
  | negotiate (s : σ) (now : Nat)
      (h : (MediaStream.negotiate s now ours theirs line).2.isOk = true) :
      NegotiatedFor ours theirs line (MediaStream.negotiate s now ours theirs line).1
  | enableRelay {s : σ} (mask : PayloadMask) (peer : UInt16)
      (h : NegotiatedFor ours theirs line s) :
      NegotiatedFor ours theirs line (MediaStream.enableRelay s mask peer).1
  | disableRelay {s : σ} (h : NegotiatedFor ours theirs line s) :
      NegotiatedFor ours theirs line (MediaStream.disableRelay s)

theorem NegotiatedFor.relayStream {ours theirs : Description} {line : Nat} {s : σ}
    (h : NegotiatedFor ours theirs line s) (peer : UInt16) (media : Media) :
    NegotiatedFor ours theirs line (Pair.relayStream s peer media) := by
  have hrelay := h.enableRelay media.mask peer
  unfold Pair.relayStream
  split
  · exact h.disableRelay
  · rcases hanswer : MediaStream.enableRelay s media.mask peer with ⟨s', f | u⟩ <;>
      rw [hanswer] at hrelay
    · exact hrelay.disableRelay
    · exact hrelay

section

variable (now : Nat) (l : Leg) (detects : Bool) (ours theirs : Description) (line : Nat)
  (p : Pair σ) {r : Receiver}

/-- Where the receiver refuses no stream, a leg is in use if its negotiation succeeded. -/
theorem isInitialized_renegotiate (hr : r.barred = []) :
    (Session.renegotiate now l detects ours theirs line p r).1.isInitialized l =
      (MediaStream.negotiate (MediaStream.setPlayout (p.stream l) now p.playout) now ours theirs
        line).2.isOk := by
  have hreset : (p.resetLeg l).1.stream l = p.stream l := stream_resetLeg p l l
  have hplayout : (p.resetLeg l).1.playout = p.playout := rfl
  simp only [Session.renegotiate, Pair.initLeg, hreset, hplayout]
  rcases MediaStream.negotiate (MediaStream.setPlayout (p.stream l) now p.playout) now ours theirs
    line with ⟨s, f | u⟩
  · cases l <;> rfl
  · have hattach := reattach_of_barred hr s
    rcases hadd : Pair.reattach r s with ⟨r', f | u⟩ <;> rw [hadd] at hattach
    · cases hattach
    · simp only [hadd]
      cases l <;> rfl

theorem isInitialized_renegotiate_opposite (r : Receiver) :
    (Session.renegotiate now l detects ours theirs line p r).1.isInitialized l.opposite =
      p.isInitialized l.opposite := by
  simp only [Session.renegotiate, Pair.initLeg]
  rcases MediaStream.negotiate _ now ours theirs line with ⟨s, f | u⟩
  · cases l <;> rfl
  · rcases hadd : Pair.reattach r s with ⟨r', f | u⟩ <;> simp only [hadd] <;> cases l <;> rfl

theorem isInitialized_setRelay (media : Media) (m : Leg) (r : Receiver) :
    (p.setRelay r l media).1.isInitialized m = p.isInitialized m := by
  rw [setRelay_pair]
  cases l <;> cases m <;> rfl

omit [MediaStream σ] in
theorem isInitialized_resetLeg :
    (p.resetLeg l).1.isInitialized l = false ∧
      (p.resetLeg l).1.isInitialized l.opposite = p.isInitialized l.opposite := by
  cases l <;> exact ⟨rfl, rfl⟩

end

omit [MediaStream σ] in
theorem Opened.unused {x : Surroundings σ} {p : Pair σ} (h : Opened x p) (l : Leg) :
    p.isInitialized l = false := by
  obtain ⟨n, a, b, -, -, rfl⟩ := h
  cases l <;> rfl

/-! ## What a leg has in a place -/

/-- A leg in a pair is in use if both its descriptions are known, have a line in the place of the
pair, and could be negotiated. It was negotiated for just these then. -/
structure Served (init : Description → Description → Nat → Bool) (ours theirs : Description)
    (i : Nat) (p : Pair σ) (l : Leg) : Prop where
  initialized : p.isInitialized l = true ↔ ours.isEmpty = false ∧
    ∃ entry, theirs.audioMedia[i]? = some entry ∧ init ours theirs entry.1 = true
  negotiated : p.isInitialized l = true →
    ∃ entry, theirs.audioMedia[i]? = some entry ∧ NegotiatedFor ours theirs entry.1 (p.stream l)

namespace Served

variable {init : Description → Description → Nat → Bool} {ours theirs : Description} {i : Nat}
  {p p' : Pair σ} {l : Leg}

/-- A leg is out of use where there is nothing to negotiate. -/
theorem of_unused (hp : p.isInitialized l = false)
    (h : ours.isEmpty = true ∨ theirs.audioMedia[i]? = none) : Served init ours theirs i p l := by
  refine ⟨?_, fun hinit => ?_⟩
  · rw [hp]
    rcases h with h | h <;> simp [h]
  · rw [hp] at hinit
    cases hinit

/-- A leg that has nothing to be negotiated for is out of use. -/
theorem unused (h : Served init ours theirs i p l)
    (hnone : ours.isEmpty = true ∨ theirs.audioMedia[i]? = none) : p.isInitialized l = false := by
  rw [Bool.eq_false_iff, ne_eq, h.initialized]
  rcases hnone with h | h <;> simp [h]

/-- A leg stays as it is while its stream is only told what to relay. -/
theorem congr (h : Served init ours theirs i p l)
    (hinit : p'.isInitialized l = p.isInitialized l)
    (hstream : ∀ line, NegotiatedFor ours theirs line (p.stream l) →
      NegotiatedFor ours theirs line (p'.stream l)) : Served init ours theirs i p' l := by
  refine ⟨hinit ▸ h.initialized, fun hp => ?_⟩
  obtain ⟨entry, hentry, hfor⟩ := h.negotiated (hinit ▸ hp)
  exact ⟨entry, hentry, hstream _ hfor⟩

/-- A leg that was just negotiated for the line in its place. -/
theorem renegotiate {P : σ → Prop} (hP : Steady P) (hanswers : ∀ t, P t → Answers init t)
    (hp : P (p.stream l)) (hours : ours.isEmpty = false) {entry : Nat × Media}
    (hentry : theirs.audioMedia[i]? = some entry) (now : Nat) (detects : Bool) {r : Receiver}
    (hr : r.barred = []) :
    Served init ours theirs i
      (Session.renegotiate now l detects ours theirs entry.1 p r).1 l := by
  let s := MediaStream.setPlayout (p.stream l) now p.playout
  have hinit := isInitialized_renegotiate now l detects ours theirs entry.1 p hr
  have hstream := stream_renegotiate p r l now detects ours theirs entry.1
  have hanswer : (MediaStream.negotiate s now ours theirs entry.1).2.isOk = _ :=
    hanswers s (hP.setPlayout now p.playout hp) now ours theirs entry.1
  refine ⟨?_, fun hok => ⟨entry, hentry, ?_⟩⟩
  · rw [hinit, hanswer, hentry]
    simp [hours]
  · rw [hstream]
    exact .negotiate s now (hinit ▸ hok)

end Served

section

variable {init : Description → Description → Nat → Bool} {P : σ → Prop} (hP : Steady P)
  (hanswers : ∀ t, P t → Answers init t) {s : Session σ} {i : Nat} {p p' : Pair σ}
  (hp : ∀ l, P (p.stream l))
  (h : ∀ l, Served init (s.localSdp.get l) (s.remoteSdp.get l) i p l)
include hP hanswers hp h

/-- A local description that comes in for the first time, with audio lines where the remote one has
some, if that is known. -/
theorem served_local {now : Nat} {l : Leg} {sdp : Description}
    (hcomes : ComesOf [] ((Update.localSdp now l sdp).change s i) p p')
    (hnew : sdp.isEmpty = false) (hempty : (s.localSdp.get l).isEmpty = true)
    (hlines : (s.remoteSdp.get l).isEmpty = false →
      sdp.normal.audioMedia.map (·.1) = (s.remoteSdp.get l).audioMedia.map (·.1)) :
    Served init sdp.normal (s.remoteSdp.get l) i p' l ∧
      Served init (s.localSdp.get l.opposite) (s.remoteSdp.get l.opposite) i p' l.opposite := by
  have hunused : p.isInitialized l = false := (h l).unused (.inl hempty)
  rw [Update.change] at hcomes
  split at hcomes
  · next hnone =>
    rw [hcomes]
    refine ⟨.of_unused hunused (.inr ?_), h l.opposite⟩
    rw [Description.audioMedia_of_isEmpty hnone, List.getElem?_nil]
  · next hsome =>
    rw [hlines (by simpa using hsome), List.getElem?_map] at hcomes
    cases hentry : (s.remoteSdp.get l).audioMedia[i]? with
    | none =>
      rw [hentry] at hcomes
      rw [hcomes]
      exact ⟨.of_unused hunused (.inr hentry), h l.opposite⟩
    | some entry =>
      rw [hentry] at hcomes
      obtain ⟨r, hr, rfl⟩ := hcomes
      refine ⟨.renegotiate hP hanswers (hp l) (by simpa using hnew) hentry now _ hr,
        (h l.opposite).congr ?_ fun line hfor => ?_⟩
      · exact isInitialized_renegotiate_opposite now l _ _ _ entry.1 p r
      · rw [localChange, stream_renegotiate_opposite]
        exact hfor

/-- A remote description that comes in for the first time. -/
theorem served_remote {now : Nat} {l : Leg} {sdp : Description}
    (hcomes : ComesOf [] ((Update.remoteSdp now l sdp).change s i) p p')
    (hempty : (s.remoteSdp.get l).isEmpty = true) :
    Served init (s.localSdp.get l) sdp.normal i p' l ∧
      Served init (s.localSdp.get l.opposite) (s.remoteSdp.get l.opposite) i p' l.opposite := by
  have hunused : p.isInitialized l = false := by
    refine (h l).unused (.inr ?_)
    rw [Description.audioMedia_of_isEmpty hempty, List.getElem?_nil]
  rw [Update.change] at hcomes
  cases hentry : sdp.normal.audioMedia[i]? with
  | none =>
    rw [hentry] at hcomes
    rw [hcomes]
    exact ⟨.of_unused hunused (.inr hentry), h l.opposite⟩
  | some entry =>
    rw [hentry] at hcomes
    obtain ⟨r, hr, rfl⟩ := hcomes
    let q := (p.setRelay r l entry.2).1
    let r' := (p.setRelay r l entry.2).2
    have hr' : r'.barred = [] := (barred_setRelay r p l entry.2).trans hr
    have hq : P (q.stream l) := by
      rw [stream_setRelay]
      exact hp l
    -- the stream across is only told what to relay
    have hacross : Served init (s.localSdp.get l.opposite) (s.remoteSdp.get l.opposite) i q
        l.opposite := by
      refine (h l.opposite).congr (isInitialized_setRelay l p entry.2 l.opposite r)
        fun line hfor => ?_
      rw [stream_setRelay_opposite]
      exact hfor.relayStream _ _
    have hline : (lineChange now l s sdp.normal entry p r).1 =
        if (s.localSdp.get l).isEmpty then (q.resetLeg l).1
        else (Session.renegotiate now l (s.detects.get l) (s.localSdp.get l) sdp.normal entry.1 q
          r').1 := by
      rw [lineChange, Session.applyLine]
      exact apply_ite Prod.fst _ _ _
    rw [hline]
    cases hours : (s.localSdp.get l).isEmpty with
    | true =>
      obtain ⟨hreset, hkept⟩ := isInitialized_resetLeg l q
      refine ⟨.of_unused hreset (.inl hours), hacross.congr hkept fun line hfor => ?_⟩
      rw [if_pos rfl, stream_resetLeg]
      exact hfor
    | false =>
      refine ⟨.renegotiate hP hanswers hq hours hentry now _ hr',
        hacross.congr ?_ fun line hfor => ?_⟩
      · exact isInitialized_renegotiate_opposite now l _ _ _ entry.1 q r'
      · rw [if_neg (by decide), stream_renegotiate_opposite]
        exact hfor

end

/-! ## Updates -/

/-- The number of audio lines of a leg's remote description. -/
def Session.lines (s : Session σ) (l : Leg) : Nat := (s.remoteSdp.get l).audioMedia.length

/-- The session is set up as its descriptions say. -/
structure Agreed (init : Description → Description → Nat → Bool) (s : Session σ) : Prop where
  served : ∀ i p, s.pairs[i]? = some p → ∀ l,
    Served init (s.localSdp.get l) (s.remoteSdp.get l) i p l
  length : s.pairs.length = max (s.lines .a) (s.lines .b)
  registered : s.registered = s.knowsAll
  submissions : s.submissions = s.knowsAll.toNat

section

variable {init : Description → Description → Nat → Bool} {P : σ → Prop} {x : Surroundings σ}
  {s : Session σ} {u : Update}

theorem Running.description_update (hrun : Running P s) (x : Surroundings σ) (u : Update)
    (slot : Slot) : (s.update x u).1.description slot =
      if slot = u.slot then u.sdp.normal else s.description slot := by
  obtain ⟨hlocal, hremote⟩ := hrun.descriptions_update x u
  rw [← Session.description_noted]
  cases slot with
  | ours l => exact congrArg (PerLeg.get · l) hlocal
  | theirs l => exact congrArg (PerLeg.get · l) hremote

/-- The session is handed to the scheduler by the update that brings the last description. -/
theorem Agreed.enlisted (h : Agreed init s) (hrun : Running P s)
    (hempty : (s.description u.slot).isEmpty = true) :
    (s.update x u).1.registered = (s.update x u).1.knowsAll ∧
      (s.update x u).1.submissions = (s.update x u).1.knowsAll.toNat := by
  have hbefore : s.knowsAll = false := by
    rw [Bool.eq_false_iff, ne_eq, Session.knowsAll_iff]
    intro hall
    rw [hall u.slot] at hempty
    cases hempty
  have hregistered := h.registered
  have hsubmissions := h.submissions
  rw [hbefore] at hregistered hsubmissions
  obtain ⟨_, _, _, _, hdescribed⟩ := Session.rewired_described x s u
  have hunlisted : (s.described x u).registered = false ∧ (s.described x u).stopped = false ∧
      (s.described x u).submissions = 0 := by
    rw [hdescribed]
    cases u <;> exact ⟨hregistered, hrun.stopped, hsubmissions⟩
  have hready : (s.described x u).isReady = (s.described x u).knowsAll := by
    rw [Session.isReady, hunlisted.1, hunlisted.2.1]
    rfl
  rw [Session.update_running hrun.stopped, Session.enlist_running, hready]
  cases hall : (s.described x u).knowsAll with
  | false =>
    rw [if_neg (by decide), hall]
    exact ⟨hunlisted.1, hunlisted.2.2⟩
  | true =>
    have hsame : Session.knowsAll { s.described x u with
        references := (s.described x u).references + 1, scheduled := true, registered := true,
        submissions := (s.described x u).submissions + 1 } = true := hall
    rw [if_pos rfl, hsame]
    refine ⟨rfl, ?_⟩
    show (s.described x u).submissions + 1 = 1
    rw [hunlisted.2.2]

/-- A description that comes in for the first time. A local one has its audio lines where the remote
one has them. -/
theorem Agreed.update (h : Agreed init s) (hrun : Running P s) (hP : Steady P)
    (hanswers : ∀ t, P t → Answers init t) (hx : Supplies x P) (hnew : u.sdp.isEmpty = false)
    (hempty : (s.description u.slot).isEmpty = true)
    (hlines : ∀ l, u.slot = .ours l → (s.remoteSdp.get l).isEmpty = false →
      u.sdp.normal.audioMedia.map (·.1) = (s.remoteSdp.get l).audioMedia.map (·.1)) :
    Agreed init (s.update x u).1 := by
  obtain ⟨hregistered, hsubmissions⟩ := h.enlisted (x := x) hrun hempty
  obtain ⟨hlocal, hremote⟩ := hrun.descriptions_update x u
  refine ⟨fun i p' hp m => ?_, ?_, hregistered, hsubmissions⟩
  · obtain ⟨p, hcomes, hprop, hfinds⟩ := hrun.update_place hx u hp
    have hserved : ∀ l, Served init (s.localSdp.get l) (s.remoteSdp.get l) i p l := by
      intro l
      rcases hfinds with hp | ⟨hle, hopened⟩
      · exact h.served i p hp l
      · refine .of_unused (hopened.unused l) (.inr (List.getElem?_eq_none ?_))
        have hlength := h.length
        cases l <;> simp only [Session.lines] at hlength <;> omega
    rw [hlocal, hremote]
    cases u with
    | localSdp now l sdp =>
      obtain ⟨hself, hacross⟩ := served_local hP hanswers hprop hserved hcomes hnew hempty
        (hlines l rfl)
      rcases Leg.eq_or_eq_opposite l m with rfl | rfl
      · simpa only [Session.noted, PerLeg.get_set_self] using hself
      · simpa only [Session.noted, PerLeg.get_set_opposite] using hacross
    | remoteSdp now l sdp =>
      obtain ⟨hself, hacross⟩ := served_remote hP hanswers hprop hserved hcomes hempty
      rcases Leg.eq_or_eq_opposite l m with rfl | rfl
      · simpa only [Session.noted, PerLeg.get_set_self] using hself
      · simpa only [Session.noted, PerLeg.get_set_opposite] using hacross
  · have hlines' : (s.update x u).1.lines = (s.noted u).lines := by
      funext m
      rw [Session.lines, Session.lines, hremote]
    rw [hrun.length_update hx, h.length, hlines']
    cases u with
    | localSdp now l sdp => exact Nat.max_zero _
    | remoteSdp now l sdp =>
      have hempty' : (s.remoteSdp.get l).isEmpty = true := hempty
      have hnone : s.lines l = 0 := by
        rw [Session.lines, Description.audioMedia_of_isEmpty hempty']
        rfl
      cases l
      · rw [hnone, Nat.zero_max]
        exact Nat.max_comm _ _
      · rw [hnone, Nat.max_zero]
        rfl

end

/-! ## Runs -/

/-- Updates that bring descriptions which a session does not know yet, one for each slot at most,
where what it knows and what they bring are certain descriptions of the slots. -/
structure Awaits (expected : Slot → Description) (s : Session σ) (us : List Update) : Prop where
  distinct : (us.map Update.slot).Nodup
  unknown : ∀ u ∈ us, (s.description u.slot).isEmpty = true
  brings : ∀ u ∈ us, u.sdp = expected u.slot
  known : ∀ slot, (s.description slot).isEmpty = true ∨ s.description slot = (expected slot).normal

section

variable {init : Description → Description → Nat → Bool} {P : σ → Prop} {x : Surroundings σ}
  {s : Session σ} {u : Update} {us : List Update} {expected : Slot → Description}

theorem Awaits.update (h : Awaits expected s (u :: us)) (hrun : Running P s) :
    Awaits expected (s.update x u).1 us := by
  obtain ⟨hfirst, hrest⟩ := List.nodup_cons.1 h.distinct
  refine ⟨hrest, fun v hv => ?_, fun v hv => h.brings v (List.mem_cons_of_mem u hv), fun slot => ?_⟩
  · have hother : v.slot ≠ u.slot := fun e => hfirst (e ▸ List.mem_map_of_mem hv)
    rw [hrun.description_update, if_neg hother]
    exact h.unknown v (List.mem_cons_of_mem u hv)
  · rw [hrun.description_update]
    split
    · next hslot =>
      rw [hslot, h.brings u List.mem_cons_self]
      exact .inr rfl
    · exact h.known slot

/-- What a session knows after a run of updates. -/
theorem Awaits.description_run (h : Awaits expected s us) (hrun : Running P s) (hP : Steady P)
    (hx : Supplies x P) (slot : Slot) : (s.run x us).1.description slot =
      if slot ∈ us.map Update.slot then (expected slot).normal else s.description slot := by
  induction us generalizing s with
  | nil => rfl
  | cons u us ih =>
    have hrest : (s.run x (u :: us)).1.description slot = _ :=
      ih (h.update hrun) (hrun.update hP hx u)
    rw [hrest, hrun.description_update, h.brings u List.mem_cons_self]
    by_cases hu : slot = u.slot
    · simp [hu]
    · simp [hu]

theorem Agreed.run (h : Agreed init s) (hawaits : Awaits expected s us) (hrun : Running P s)
    (hP : Steady P) (hanswers : ∀ t, P t → Answers init t) (hx : Supplies x P)
    (hexpected : ∀ slot, (expected slot).isEmpty = false)
    (hlines : ∀ l, (expected (.ours l)).audioMedia.map (·.1) =
      (expected (.theirs l)).audioMedia.map (·.1)) : Agreed init (s.run x us).1 := by
  induction us generalizing s with
  | nil => exact h
  | cons u us ih =>
    have hsdp := hawaits.brings u List.mem_cons_self
    refine ih (h.update hrun hP hanswers hx ?_ (hawaits.unknown u List.mem_cons_self) ?_)
      (hawaits.update hrun) (hrun.update hP hx u)
    · rw [hsdp]
      exact hexpected _
    · intro l hslot hsome
      rcases hawaits.known (.theirs l) with hnone | hknown
      · have hnone' : (s.remoteSdp.get l).isEmpty = true := hnone
        rw [hsome] at hnone'
        cases hnone'
      · have hknown' : s.remoteSdp.get l = (expected (.theirs l)).normal := hknown
        rw [hknown', hsdp, hslot, Description.map_fst_audioMedia_normal,
          Description.map_fst_audioMedia_normal]
        exact hlines l

/-- What a description notes that comes in for the first time is what is offered from then on. -/
theorem Running.note_offer (hrun : Running P s) (x : Surroundings σ)
    (hempty : (s.description u.slot).isEmpty = true) :
    u.note s.offer = (s.update x u).1.offer := by
  funext l i
  rw [Session.offer, (hrun.descriptions_update x u).2]
  cases u with
  | localSdp now m sdp => rfl
  | remoteSdp now m sdp =>
    rcases Leg.eq_or_eq_opposite m l with rfl | rfl
    · have hempty' : (s.remoteSdp.get l).isEmpty = true := hempty
      have hnone : s.offer l i = none := by
        rw [Session.offer, Description.offer, Description.audioMedia_of_isEmpty hempty',
          List.getElem?_nil]
        rfl
      rw [Update.note, if_pos rfl, hnone, Session.noted, PerLeg.get_set_self,
        Description.offer_normal, Description.offer]
      cases sdp.audioMedia[i]? <;> rfl
    · rw [Update.note, if_neg (Leg.opposite_ne m).symm, Session.noted, PerLeg.get_set_opposite]
      rfl

/-- The filters are what the descriptions offer, as long as each comes in once. -/
theorem Offered.run_once [LawfulStream σ] (h : Offered s.offer s) (hawaits : Awaits expected s us)
    (hrun : Running P s) (hP : Steady P) (hx : Supplies x P) (hrelay : ∀ t, P t → RelaysAll t) :
    Offered (s.run x us).1.offer (s.run x us).1 := by
  induction us generalizing s with
  | nil => exact h
  | cons u us ih =>
    have hnote := hrun.note_offer x (hawaits.unknown u List.mem_cons_self)
    exact ih (hnote ▸ h.update hrun hx hrelay u) (hawaits.update hrun) (hrun.update hP hx u)

end

/-! ## Four descriptions -/

/-- The four descriptions of a call. -/
def fourSlots (ours theirs : PerLeg Description) : Slot → Description
  | .ours l => ours.get l
  | .theirs l => theirs.get l

/-- The updates that bring the four descriptions, each at some time. -/
def fourUpdates (times : Slot → Nat) (ours theirs : PerLeg Description) : List Update :=
  [.localSdp (times (.ours .a)) .a ours.a, .remoteSdp (times (.theirs .a)) .a theirs.a,
    .localSdp (times (.ours .b)) .b ours.b, .remoteSdp (times (.theirs .b)) .b theirs.b]

section

variable (id : SessionId) (callgroup : String) (detects : PerLeg Bool)
  {ours theirs : PerLeg Description} {us : List Update} {times : Slot → Nat}

omit [MediaStream σ] in
theorem description_fresh (slot : Slot) :
    (Session.fresh id callgroup detects (Receiver.idle []) : Session σ).description slot =
      Description.empty := by
  rcases slot with (_ | _) | (_ | _) <;> rfl

theorem agreed_fresh {init : Description → Description → Nat → Bool} :
    Agreed init (Session.fresh id callgroup detects (Receiver.idle []) : Session σ) := by
  refine ⟨fun i p hp => ?_, rfl, rfl, rfl⟩
  cases hp

theorem offered_fresh :
    let start : Session σ := Session.fresh id callgroup detects (Receiver.idle [])
    Offered start.offer start := by
  intro start
  have hnone : start.offer = fun _ _ => none := by
    funext l i
    cases l <;> rfl
  exact hnone ▸ Offered.fresh id callgroup detects

theorem slots_of_perm (hus : us.Perm (fourUpdates times ours theirs)) :
    (us.map Update.slot).Nodup ∧ ∀ slot, slot ∈ us.map Update.slot := by
  have hslots : (us.map Update.slot).Perm [.ours .a, .theirs .a, .ours .b, .theirs .b] :=
    hus.map Update.slot
  refine ⟨hslots.nodup_iff.2 (by decide), fun slot => hslots.mem_iff.2 ?_⟩
  rcases slot with (_ | _) | (_ | _) <;> decide

omit [MediaStream σ] in
theorem awaits_fresh (hus : us.Perm (fourUpdates times ours theirs)) :
    Awaits (fourSlots ours theirs)
      (Session.fresh id callgroup detects (Receiver.idle []) : Session σ) us := by
  refine ⟨(slots_of_perm hus).1, fun u _ => ?_, fun u hu => ?_, fun slot => ?_⟩
  · rw [description_fresh]
    rfl
  · have hmem := hus.mem_iff.1 hu
    simp only [fourUpdates, List.mem_cons, List.not_mem_nil, or_false] at hmem
    rcases hmem with rfl | rfl | rfl | rfl <;> rfl
  · rw [description_fresh]
    exact .inl rfl

end

/-- **Main theorem**: four descriptions set a session up in the same way, in whichever order they
come in. Each has a line, and the two of a leg list the same kinds of media. Streams are allocated,
registered and told to relay without fail, and whether one can be negotiated depends on the two
descriptions and the line alone.

In the end there is a pair for each audio line of the longer remote description. Each stream relays
what the leg across offers in its place. A leg is in use in a pair if it has a line in that place
and could be negotiated for it, and then it was negotiated last for that line of its two
descriptions. The session was handed to the scheduler once. -/
theorem agreed_in_any_order [LawfulStream σ] {P : σ → Prop} (hP : Steady P)
    (hrelay : ∀ t, P t → RelaysAll t) {init : Description → Description → Nat → Bool}
    (hanswers : ∀ t, P t → Answers init t) {x : Surroundings σ} (hx : Supplies x P)
    (id : SessionId) (callgroup : String) (detects : PerLeg Bool) {ours theirs : PerLeg Description}
    (hours : ∀ l, (ours.get l).isEmpty = false) (htheirs : ∀ l, (theirs.get l).isEmpty = false)
    (hkinds : ∀ l, (ours.get l).media.map (·.kind) = (theirs.get l).media.map (·.kind))
    {times : Slot → Nat} {us : List Update} (hus : us.Perm (fourUpdates times ours theirs)) :
    let s := ((Session.fresh id callgroup detects (Receiver.idle []) : Session σ).run x us).1
    s.pairs.length = max theirs.a.audioMedia.length theirs.b.audioMedia.length ∧
      (∀ i p, s.pairs[i]? = some p → ∀ l,
        p.relayMask l.opposite = (theirs.get l).offer i ∧
        (p.isInitialized l = true ↔ ∃ entry : Nat × Media,
          (theirs.get l).audioMedia[i]? = some entry ∧
            init (ours.get l).normal (theirs.get l).normal entry.1 = true) ∧
        (p.isInitialized l = true → ∃ entry : Nat × Media,
          (theirs.get l).audioMedia[i]? = some entry ∧
            NegotiatedFor (ours.get l).normal (theirs.get l).normal entry.1 (p.stream l))) ∧
      (∀ l, s.localSdp.get l = (ours.get l).normal ∧ s.remoteSdp.get l = (theirs.get l).normal) ∧
      s.registered = true ∧ s.submissions = 1 := by
  intro s
  let start : Session σ := Session.fresh id callgroup detects (Receiver.idle [])
  let expected : Slot → Description := fourSlots ours theirs
  have hrun : Running P start := ⟨rfl, rfl, fun p hp => absurd hp List.not_mem_nil⟩
  have hawaits : Awaits expected start us := awaits_fresh id callgroup detects hus
  have hexpected : ∀ slot, (expected slot).isEmpty = false := by
    intro slot
    cases slot with
    | ours l => exact hours l
    | theirs l => exact htheirs l
  have hlines : ∀ l, (expected (.ours l)).audioMedia.map (·.1) =
      (expected (.theirs l)).audioMedia.map (·.1) := by
    intro l
    exact Description.map_fst_audioMedia_congr (hkinds l)
  have hknown : ∀ slot, s.description slot = (expected slot).normal := by
    intro slot
    rw [hawaits.description_run hrun hP hx slot, if_pos ((slots_of_perm hus).2 slot)]
  have hall : s.knowsAll = true := by
    rw [Session.knowsAll_iff]
    intro slot
    rw [hknown, Description.isEmpty_normal]
    exact hexpected slot
  have hagreed : Agreed init s :=
    (agreed_fresh id callgroup detects).run hawaits hrun hP hanswers hx hexpected hlines
  have hmasks : Offered s.offer s :=
    Offered.run_once (offered_fresh id callgroup detects) hawaits hrun hP hx hrelay
  have hlocal : ∀ l, s.localSdp.get l = (ours.get l).normal := fun l => hknown (.ours l)
  have hremote : ∀ l, s.remoteSdp.get l = (theirs.get l).normal := fun l => hknown (.theirs l)
  refine ⟨?_, fun i p hp l => ⟨?_, ?_, fun hinit => ?_⟩, fun l => ⟨hlocal l, hremote l⟩, ?_, ?_⟩
  · rw [hagreed.length, Session.lines, Session.lines, hremote, hremote,
      Description.audioMedia_normal, Description.audioMedia_normal, List.length_map,
      List.length_map]
    rfl
  · rw [hmasks.mask i p hp, Session.offer, hremote, Description.offer_normal]
  · rw [(hagreed.served i p hp l).initialized, hlocal, hremote, Description.isEmpty_normal, hours,
      Description.exists_audioMedia_normal
        (Q := fun line => init (ours.get l).normal (theirs.get l).normal line = true)]
    exact and_iff_right rfl
  · have hnegotiated := (hagreed.served i p hp l).negotiated hinit
    rw [hlocal, hremote] at hnegotiated
    exact (Description.exists_audioMedia_normal
      (Q := fun line => NegotiatedFor (ours.get l).normal (theirs.get l).normal line
        (p.stream l))).1 hnegotiated
  · rw [hagreed.registered, hall]
  · rw [hagreed.submissions, hall]
    rfl

/-- What both legs offer themselves. -/
def sampleOurs : PerLeg Description := ⟨sampleLines [[0], [8]], sampleLines [[0, 8]]⟩

/-- What both legs are answered. -/
def sampleTheirs : PerLeg Description := ⟨sampleLines [[0, 101], [8]], sampleLines [[0]]⟩

/-- All that is known of one leg comes in before anything of the other. -/
def secondLegFirst : List Update :=
  [.localSdp 0 .b sampleOurs.b, .remoteSdp 0 .b sampleTheirs.b, .localSdp 0 .a sampleOurs.a,
    .remoteSdp 0 .a sampleTheirs.a]

theorem agreed_in_any_order_secondLegFirst :
    let P : Rehearsal.ScriptedStream → Prop := fun t => t.failing = []
    let init : Description → Description → Nat → Bool := fun ours theirs line =>
      (Rehearsal.ScriptedStream.agree ours theirs line).isOk
    Steady P ∧ (∀ t, P t → RelaysAll t) ∧ (∀ t, P t → Answers init t) ∧
      Supplies plentifulSurroundings P ∧ (∀ l, (sampleOurs.get l).isEmpty = false) ∧
      (∀ l, (sampleTheirs.get l).isEmpty = false) ∧
      (∀ l, (sampleOurs.get l).media.map (·.kind) = (sampleTheirs.get l).media.map (·.kind)) ∧
      secondLegFirst.Perm (fourUpdates (fun _ => 0) sampleOurs sampleTheirs) ∧
      let s := (sampleSession.run plentifulSurroundings secondLegFirst).1
      s.pairs.length = max sampleTheirs.a.audioMedia.length sampleTheirs.b.audioMedia.length := by
  intro P init
  have hP : Steady P := ⟨fun _ _ h => h, fun h => h, fun _ _ _ _ h => h, fun _ _ h => h⟩
  have hanswer : ∀ t, P t → ∀ c : Rehearsal.Call, t.answer c () = .ok () := by
    intro t ht c
    rw [Rehearsal.ScriptedStream.answer, ht]
    rfl
  have hrelay : ∀ t, P t → RelaysAll t := fun t ht mask peer => hanswer t ht .relay
  have hanswers : ∀ t, P t → Answers init t := by
    intro t ht now ours theirs line
    show ((t.answer .negotiate ()).bind fun _ => _).isOk = _
    rw [hanswer t ht]
    rfl
  have hx : Supplies plentifulSurroundings P := fun n l => ⟨_, rfl, rfl, rfl⟩
  have hours : ∀ l, (sampleOurs.get l).isEmpty = false := Leg.forall_iff.2 ⟨rfl, rfl⟩
  have htheirs : ∀ l, (sampleTheirs.get l).isEmpty = false := Leg.forall_iff.2 ⟨rfl, rfl⟩
  have hkinds : ∀ l, (sampleOurs.get l).media.map (·.kind) =
      (sampleTheirs.get l).media.map (·.kind) := Leg.forall_iff.2 ⟨rfl, rfl⟩
  have hus : secondLegFirst.Perm (fourUpdates (fun _ => 0) sampleOurs sampleTheirs) :=
    (List.perm_append_comm :
      (secondLegFirst.take 2 ++ secondLegFirst.drop 2).Perm
        (secondLegFirst.drop 2 ++ secondLegFirst.take 2))
  exact ⟨hP, hrelay, hanswers, hx, hours, htheirs, hkinds, hus,
    (agreed_in_any_order hP hrelay hanswers hx ⟨"s"⟩ "g" ⟨false, true⟩ hours htheirs hkinds hus).1⟩

/-- The caller was offered two lines, the callee one: the second pair serves only the caller. -/
example : (sampleSession.run plentifulSurroundings secondLegFirst).1.ledger.pairs =
    [⟨⟨⟨5000, some (PayloadMask.ofList [0])⟩, true⟩,
        ⟨⟨5001, some (PayloadMask.ofList [0, 101])⟩, true⟩⟩,
      ⟨⟨⟨5002, none⟩, true⟩, ⟨⟨5003, some (PayloadMask.ofList [8])⟩, false⟩⟩] := by decide

end CallBridge.Bridge
