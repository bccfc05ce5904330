import CallBridge.Proofs.Bridge.PairRecords

/-!
# Sessions keep their ledgers

Whatever the surroundings answer, a session that was not stopped shows after a run of updates what
its ledger says. The ledger asks the surroundings for streams itself, one after the other. All other
answers are those of the very calls that the session makes: what came of attaching new streams to
the receiver, of the request to relay, and of the negotiation, each at the moment of the call.

The pairs are followed line by line. What lies before the line at hand stays as it is, and what
lies behind it is left to the rest of the lines, so that the induction is on the lines with the list
of pairs split at their index.

Results:
* `createPair_streams`, `growth_createPair`: a pair is opened for two streams that are allocated.
* `records_applyLines`, `records_applyLocal`: what all lines of a description do to the pairs.
* `ledger_update`: one update.
* `ledger_run`: any run of updates.
-/

namespace CallBridge.Bridge

open Rtp (MediaStream LawfulStream Receiver)
open Sdp (Description Media)

variable {σ : Type}

/-! ## What lines leave alone -/

/-- The sessions differ in their streams at most. -/
def Rewired (s s' : Session σ) : Prop :=
  ∃ pairs requests receiver released, s' = { s with pairs, requests, receiver, released }

theorem Rewired.refl (s : Session σ) : Rewired s s := ⟨_, _, _, _, rfl⟩

theorem Rewired.trans {s s' s'' : Session σ} (h : Rewired s s') (h' : Rewired s' s'') :
    Rewired s s'' := by
  obtain ⟨_, _, _, _, rfl⟩ := h
  obtain ⟨_, _, _, _, rfl⟩ := h'
  exact ⟨_, _, _, _, rfl⟩

theorem Rewired.detects {s s' : Session σ} (h : Rewired s s') : s'.detects = s.detects := by
  obtain ⟨_, _, _, _, rfl⟩ := h
  rfl

theorem Rewired.localSdp {s s' : Session σ} (h : Rewired s s') : s'.localSdp = s.localSdp := by
  obtain ⟨_, _, _, _, rfl⟩ := h
  rfl

theorem Rewired.stopped {s s' : Session σ} (h : Rewired s s') : s'.stopped = s.stopped := by
  obtain ⟨_, _, _, _, rfl⟩ := h
  rfl

theorem rewired_modifyPair (s : Session σ) (index : Nat)
    (f : Pair σ → Receiver → Pair σ × Receiver) : Rewired s (s.modifyPair index f) := by
  unfold Session.modifyPair
  split
  · exact Rewired.refl s
  · exact ⟨_, _, _, _, rfl⟩

theorem requests_modifyPair (s : Session σ) (index : Nat)
    (f : Pair σ → Receiver → Pair σ × Receiver) : (s.modifyPair index f).requests = s.requests := by
  unfold Session.modifyPair
  split <;> rfl

theorem getElem?_split {s : Session σ} {pre : List (Pair σ)} {p : Pair σ} {ps : List (Pair σ)}
    (h : s.pairs = pre ++ p :: ps) : s.pairs[pre.length]? = some p := by
  rw [h, List.getElem?_append_right (Nat.le_refl _), Nat.sub_self, List.getElem?_cons_zero]

theorem modifyPair_of_le {s : Session σ} {index : Nat} (h : s.pairs.length ≤ index)
    (f : Pair σ → Receiver → Pair σ × Receiver) : s.modifyPair index f = s := by
  rw [Session.modifyPair, List.getElem?_eq_none h]

/-- Only the pair with the index is changed. -/
theorem modifyPair_split {s : Session σ} {pre : List (Pair σ)} {p : Pair σ} {ps : List (Pair σ)}
    (h : s.pairs = pre ++ p :: ps) (f : Pair σ → Receiver → Pair σ × Receiver) :
    s.modifyPair pre.length f =
      { s with
        pairs := pre ++ [(f p s.receiver).1] ++ ps, receiver := (f p s.receiver).2 } := by
  rw [Session.modifyPair, getElem?_split h]
  simp only [h, List.set_append_right _ _ (Nat.le_refl _), Nat.sub_self, List.set_cons_zero,
    List.append_assoc, List.singleton_append]

variable [MediaStream σ]

theorem Rewired.ledger {s s' : Session σ} (h : Rewired s s') :
    s'.ledger = { s.ledger with
      pairs := s'.pairs.map Pair.record, requests := s'.requests } := by
  obtain ⟨_, _, _, _, rfl⟩ := h
  rfl

/-- A session that asked for a pair got no streams, and the receiver was asked for nothing, or the
answer is the one to both streams. -/
theorem createPair_streams (x : Surroundings σ) (s : Session σ) :
    ∃ requests receiver released,
      (s.createPair x).1 = { s with requests, receiver, released } ∧
        ((∃ f, (x.allocate s.requests .a = .error f ∨ x.allocate (s.requests + 1) .b = .error f) ∧
            receiver = s.receiver ∧ (s.createPair x).2 = .error f) ∨
          ∃ a b, x.allocate s.requests .a = .ok a ∧ x.allocate (s.requests + 1) .b = .ok b ∧
            Pair.create a b x.settings.playout s.receiver = (receiver, (s.createPair x).2)) := by
  rw [Session.createPair]
  simp only [Session.allocate]
  cases ha : x.allocate s.requests .a with
  | error f => exact ⟨_, _, _, rfl, .inl ⟨f, .inl rfl, rfl, rfl⟩⟩
  | ok a =>
    cases hb : x.allocate (s.requests + 1) .b with
    | error f =>
      simp only [hb]
      exact ⟨_, _, _, rfl, .inl ⟨f, .inr rfl, rfl, rfl⟩⟩
    | ok b =>
      rcases hcreate : Pair.create a b x.settings.playout s.receiver with ⟨r, f | p⟩ <;>
        simp only [hb, hcreate] <;> exact ⟨_, _, _, rfl, .inr ⟨a, b, rfl, rfl, hcreate⟩⟩

/-- A session that asked for a pair has the pairs that it had. -/
theorem createPair_frame (x : Surroundings σ) (s : Session σ) :
    Rewired s (s.createPair x).1 ∧ (s.createPair x).1.pairs = s.pairs := by
  obtain ⟨_, _, _, hafter, -⟩ := createPair_streams x s
  exact ⟨⟨_, _, _, _, hafter⟩, by rw [hafter]⟩

theorem rewired_ensurePair (x : Surroundings σ) (s : Session σ) (index : Nat) :
    Rewired s (s.ensurePair x index).1 := by
  have hcreate := (createPair_frame x s).1
  unfold Session.ensurePair
  split
  · rcases hp : s.createPair x with ⟨s', f | p⟩ <;> rw [hp] at hcreate
    · exact hcreate
    · exact hcreate.trans ⟨_, _, _, _, rfl⟩
  · exact Rewired.refl s

theorem rewired_applyLines (x : Surroundings σ) (now : Nat) (l : Leg) (theirs : Description)
    (lines : List (Nat × Media)) (index : Nat) (s : Session σ) :
    Rewired s (Session.applyLines x now l theirs lines index s).1 := by
  induction lines generalizing index s with
  | nil => exact Rewired.refl s
  | cons entry rest ih =>
    have hensure := rewired_ensurePair x s index
    rw [Session.applyLines]
    rcases hp : s.ensurePair x index with ⟨s', f | u⟩ <;> rw [hp] at hensure
    · exact hensure
    · exact (hensure.trans (rewired_modifyPair s' index _)).trans (ih _ _)

theorem rewired_applyLocal (now : Nat) (l : Leg) (ours theirs : Description) (lines : List Nat)
    (index : Nat) (s : Session σ) :
    Rewired s (Session.applyLocal now l ours theirs lines index s) := by
  induction lines generalizing index s with
  | nil => exact Rewired.refl s
  | cons line rest ih => exact (rewired_modifyPair s index _).trans (ih _ _)

/-- For local lines no streams are requested. -/
theorem requests_applyLocal (now : Nat) (l : Leg) (ours theirs : Description) (lines : List Nat)
    (index : Nat) (s : Session σ) :
    (Session.applyLocal now l ours theirs lines index s).requests = s.requests := by
  induction lines generalizing index s with
  | nil => rfl
  | cons line rest ih => exact (ih _ _).trans (requests_modifyPair s index _)

/-! ## Answers -/

/-- What the receiver of a session answers when the next two streams, if both can be allocated, are
to be attached to it. -/
def attachAnswer (x : Surroundings σ) (s : Session σ) : Outcome Unit :=
  match x.allocate s.requests .a, x.allocate (s.requests + 1) .b with
  | .ok a, .ok b => (Pair.create a b x.settings.playout s.receiver).2.map fun _ => ()
  | _, _ => .ok ()

/-- What is answered to a session while it applies a remote audio line to the pair with an index.
The pair may have to be opened first. -/
def lineAnswer (x : Surroundings σ) (now : Nat) (l : Leg) (theirs : Description)
    (entry : Nat × Media) (index : Nat) (s : Session σ) : LineAnswer :=
  let attached := attachAnswer x s
  let ready := (s.ensurePair x index).1
  match ready.pairs[index]? with
  | none => ⟨attached, .ok (), .ok ()⟩
  | some p =>
    let (relayed, r) := p.setRelay ready.receiver l entry.2
    ⟨attached, relayAnswer l entry.2 p,
      negotiationAnswer now l (s.detects.get l) (s.localSdp.get l) theirs entry.1 relayed r⟩

/-- What is answered while remote lines are applied to the pairs from an index on: each line finds
the session that the lines before it left behind. -/
def lineAnswers (x : Surroundings σ) (now : Nat) (l : Leg) (theirs : Description)
    (lines : List (Nat × Media)) (index : Nat) (s : Session σ) (i : Nat) : LineAnswer :=
  match lines[i]? with
  | none => default
  | some entry =>
    lineAnswer x now l theirs entry (index + i)
      (Session.applyLines x now l theirs (lines.take i) index s).1

/-- What comes of the negotiations while local lines are applied to the pairs from an index on. -/
def localAnswers (now : Nat) (l : Leg) (ours theirs : Description) (lines : List Nat) (index : Nat)
    (s : Session σ) (i : Nat) : LineAnswer :=
  let reached := Session.applyLocal now l ours theirs (lines.take i) index s
  match lines[i]?, reached.pairs[index + i]? with
  | some line, some p =>
    { (default : LineAnswer) with
      negotiated :=
        negotiationAnswer now l (s.detects.get l) ours theirs line p reached.receiver }
  | _, _ => default

theorem attached_lineAnswer (x : Surroundings σ) (now : Nat) (l : Leg) (theirs : Description)
    (entry : Nat × Media) (index : Nat) (s : Session σ) :
    (lineAnswer x now l theirs entry index s).attached = attachAnswer x s := by
  simp only [lineAnswer]
  split <;> rfl

/-- The next pair of a ledger is the one that the session opens. -/
theorem growth_createPair (x : Surroundings σ) (s : Session σ) (attached : Nat → Outcome Unit)
    (index : Nat) (h : attached index = attachAnswer x s) (wanted : Nat) :
    growth x.allocated attached s.requests index (wanted + 1) =
      match s.createPair x with
      | (s', .error f) => ([], s'.requests, .error f)
      | (s', .ok p) =>
        let more := growth x.allocated attached s'.requests (index + 1) wanted
        (p.record :: more.1, more.2) := by
  rw [growth, h]
  simp only [Surroundings.allocated, Session.createPair, Session.allocate, attachAnswer]
  cases ha : x.allocate s.requests .a with
  | error f => rfl
  | ok a =>
    cases hb : x.allocate (s.requests + 1) .b with
    | error f => simp only [hb, Except.map]
    | ok b =>
      rcases hcreate : Pair.create a b x.settings.playout s.receiver with ⟨r, f | p⟩
      · simp only [hb, hcreate, Except.map]
      · have hrecord := record_create (congrArg Prod.snd hcreate)
        simp only [hb, hcreate, Except.map, hrecord]

/-- Once a line has its pair, the lines behind it are answered as if they were the first. -/
theorem lineAnswers_succ {x : Surroundings σ} {s s' : Session σ} {index : Nat}
    (h : s.ensurePair x index = (s', .ok ())) (now : Nat) (l : Leg) (theirs : Description)
    (entry : Nat × Media) (rest : List (Nat × Media)) (i : Nat) :
    lineAnswers x now l theirs (entry :: rest) index s (i + 1) =
      lineAnswers x now l theirs rest (index + 1)
        (s'.modifyPair index (Session.applyLine now l (s'.detects.get l) (s'.localSdp.get l) theirs
          entry.1 entry.2)) i := by
  have hindex : index + (i + 1) = index + 1 + i := by omega
  simp only [lineAnswers, List.getElem?_cons_succ, List.take_succ_cons, Session.applyLines, h,
    hindex]

theorem localAnswers_succ (now : Nat) (l : Leg) (ours theirs : Description) (line : Nat)
    (rest : List Nat) (index : Nat) (s : Session σ) (i : Nat) :
    localAnswers now l ours theirs (line :: rest) index s (i + 1) =
      localAnswers now l ours theirs rest (index + 1)
        (s.modifyPair index (Session.renegotiate now l (s.detects.get l) ours theirs line)) i := by
  have hdetects := (rewired_modifyPair s index
    (Session.renegotiate now l (s.detects.get l) ours theirs line)).detects
  have hindex : index + (i + 1) = index + 1 + i := by omega
  simp only [localAnswers, List.getElem?_cons_succ, List.take_succ_cons, Session.applyLocal, hindex,
    hdetects]

theorem applyLocal_of_le {now : Nat} {l : Leg} {ours theirs : Description} {lines : List Nat}
    {index : Nat} {s : Session σ} (h : s.pairs.length ≤ index) :
    Session.applyLocal now l ours theirs lines index s = s := by
  induction lines generalizing index with
  | nil => rfl
  | cons line rest ih =>
    rw [Session.applyLocal, modifyPair_of_le h]
    exact ih (Nat.le_succ_of_le h)

theorem ensurePair_of_lt {x : Surroundings σ} {s : Session σ} {index : Nat}
    (h : index < s.pairs.length) : s.ensurePair x index = (s, .ok ()) := by
  rw [Session.ensurePair, if_neg (by omega)]

/-! ## Updates -/

namespace Session

/-- The session after an update, and what the update gave back, under a running scheduler. -/
def update (x : Surroundings σ) (s : Session σ) : Update → Session σ × Outcome Unit
  | .localSdp now l sdp => (s.updateLocal now l sdp true, .ok ())
  | .remoteSdp now l sdp => s.updateRemote x now l sdp true

/-- What is answered to a session during an update. -/
def answers (x : Surroundings σ) (s : Session σ) : Update → Nat → LineAnswer
  | .localSdp now l sdp =>
    localAnswers now l sdp.normal (s.remoteSdp.get l) (sdp.normal.audioMedia.map (·.1)) 0
      { s with localSdp := s.localSdp.set l sdp.normal }
  | .remoteSdp now l sdp =>
    lineAnswers x now l sdp.normal sdp.normal.audioMedia 0
      { s with remoteSdp := s.remoteSdp.set l sdp.normal }

/-- The session after a run of updates, and what each of them gave back. -/
def run (x : Surroundings σ) (s : Session σ) : List Update → Session σ × List (Outcome Unit)
  | [] => (s, [])
  | u :: us =>
    let after := s.update x u
    let rest := after.1.run x us
    (rest.1, after.2 :: rest.2)

/-- The updates of a run, each with what is answered to the session during it. -/
def transcript (x : Surroundings σ) (s : Session σ) :
    List Update → List (Update × (Nat → LineAnswer))
  | [] => []
  | u :: us => (u, s.answers x u) :: (s.update x u).1.transcript x us

end Session

/-- A running scheduler takes every session that is ready, and holds a reference to it. -/
theorem ledger_enlist {s : Session σ} (h : s.stopped = false) :
    (s.enlist true).ledger = s.ledger.register ∧ (s.enlist true).stopped = false := by
  have hready : s.isReady = (s.ledger.knowsAll && !s.ledger.registered) := by
    have hregistered : s.ledger.registered = s.registered := rfl
    rw [Session.isReady, h, knowsAll_ledger, hregistered]
    cases s.knowsAll <;> cases s.registered <;> rfl
  unfold Session.enlist Ledger.register
  rw [hready]
  split
  · exact ⟨rfl, h⟩
  · exact ⟨rfl, h⟩

/-! ## All lines of a description -/

variable [LawfulStream σ]

/-- The line at hand changes the pair in its place by what it is answered. -/
theorem record_line {x : Surroundings σ} {s ready : Session σ} {pre ps : List (Pair σ)} {p : Pair σ}
    (h : s.ensurePair x pre.length = (ready, .ok ())) (hp : ready.pairs = pre ++ p :: ps)
    (now : Nat) (l : Leg) (theirs : Description) (entry : Nat × Media) :
    (Session.applyLine now l (ready.detects.get l) (ready.localSdp.get l) theirs entry.1 entry.2 p
        ready.receiver).1.record =
      p.record.afterRemote l (!(s.localSdp.get l).isEmpty) entry.2
        (lineAnswer x now l theirs entry pre.length s) := by
  have hsame := rewired_ensurePair x s pre.length
  rw [h] at hsame
  have hdetects : ready.detects = s.detects := hsame.detects
  have hlocal : ready.localSdp = s.localSdp := hsame.localSdp
  have hget : ready.pairs[pre.length]? = some p := getElem?_split hp
  rw [lineAnswer]
  simp only [h, hget, hdetects, hlocal]
  exact record_applyLine now l _ _ theirs entry.1 entry.2 p ready.receiver _

/-- What remote lines do to the pairs behind those of a list: they are opened for the lines
without a pair, and each changes by what its line was answered. -/
def Recorded (x : Surroundings σ) (now : Nat) (l : Leg) (theirs : Description)
    (lines : List (Nat × Media)) (pre ps : List (Pair σ)) (s : Session σ) : Prop :=
  let answers := lineAnswers x now l theirs lines pre.length s
  let opened := growth x.allocated (fun i => (answers i).attached) s.requests ps.length
    (lines.length - ps.length)
  let after := Session.applyLines x now l theirs lines pre.length s
  after.1.pairs.map Pair.record =
      pre.map Pair.record ++ PairRecord.afterLines l (!(s.localSdp.get l).isEmpty)
        (lines.map (·.2)) answers (ps.map Pair.record ++ opened.1) ∧
    (after.1.requests, after.2) = opened.2

/-- Once the first line has its pair, the rest of the lines goes to the pairs behind it. -/
theorem records_cons {x : Surroundings σ} {now : Nat} {l : Leg} {theirs : Description}
    {rest : List (Nat × Media)} {pre ps : List (Pair σ)} {p : Pair σ}
    {s ready : Session σ} (entry : Nat × Media) (h : s.ensurePair x pre.length = (ready, .ok ()))
    (hp : ready.pairs = pre ++ p :: ps)
    (ih : ∀ (pre ps : List (Pair σ)) (s : Session σ), s.pairs = pre ++ ps →
      Recorded x now l theirs rest pre ps s) :
    let answers := lineAnswers x now l theirs (entry :: rest) pre.length s
    let opened := growth x.allocated (fun i => (answers (i + 1)).attached) ready.requests ps.length
      (rest.length - ps.length)
    let after := Session.applyLines x now l theirs (entry :: rest) pre.length s
    after.1.pairs.map Pair.record =
        pre.map Pair.record ++ PairRecord.afterLines l (!(s.localSdp.get l).isEmpty)
          ((entry :: rest).map (·.2)) answers (p.record :: (ps.map Pair.record ++ opened.1)) ∧
      (after.1.requests, after.2) = opened.2 := by
  intro answers opened after
  have hsame := rewired_ensurePair x s pre.length
  rw [h] at hsame
  have hlocal : ready.localSdp = s.localSdp := hsame.localSdp
  have hline := record_line h hp now l theirs entry
  let f : Pair σ → Receiver → Pair σ × Receiver :=
    Session.applyLine now l (ready.detects.get l) (ready.localSdp.get l) theirs entry.1 entry.2
  let s' := ready.modifyPair pre.length f
  let q := (f p ready.receiver).1
  have hs' : s' = { ready with
      pairs := pre ++ [q] ++ ps, receiver := (f p ready.receiver).2 } := modifyPair_split hp f
  have hlength : (pre ++ [q]).length = pre.length + 1 := by simp
  have hafter : after = Session.applyLines x now l theirs rest (pre.length + 1) s' := by
    simp only [after, Session.applyLines, h]
    rfl
  have hanswers : (fun i => answers (i + 1)) =
      lineAnswers x now l theirs rest (pre.length + 1) s' :=
    funext fun i => lineAnswers_succ h now l theirs entry rest i
  obtain ⟨hrecords, houtcome⟩ := ih (pre ++ [q]) ps s' (by rw [hs'])
  have hknown : s'.localSdp = s.localSdp := by rw [hs', hlocal]
  have hrequests : s'.requests = ready.requests := by rw [hs']
  rw [hlength, ← hafter, hknown, ← hanswers, hrequests] at hrecords
  rw [hlength, ← hafter, ← hanswers, hrequests] at houtcome
  refine ⟨?_, houtcome⟩
  rw [hrecords, List.map_cons, PairRecord.afterLines_cons, List.map_append, List.map_singleton,
    List.append_assoc, List.singleton_append]
  exact congrArg (fun r => _ ++ r :: _) hline

/-- The remote lines of a leg, for the pairs behind those of a list. -/
theorem records_applyLines (x : Surroundings σ) (now : Nat) (l : Leg) (theirs : Description)
    (lines : List (Nat × Media)) (pre ps : List (Pair σ)) (s : Session σ)
    (h : s.pairs = pre ++ ps) : Recorded x now l theirs lines pre ps s := by
  induction lines generalizing pre ps s with
  | nil =>
    rw [Recorded, Session.applyLines, List.map_nil, PairRecord.afterLines_nil, List.length_nil,
      Nat.zero_sub, growth, List.append_nil, h, List.map_append]
    exact ⟨rfl, rfl⟩
  | cons entry rest ih =>
    cases ps with
    | cons p ps =>
      have hlt : pre.length < s.pairs.length := by
        rw [h, List.length_append, List.length_cons]
        omega
      have hcons := records_cons entry (ensurePair_of_lt (x := x) hlt) h ih
      rw [Recorded, List.length_cons, List.length_cons, Nat.add_sub_add_right, ← growth_succ]
      exact hcons
    | nil =>
      have hlength : pre.length = s.pairs.length := by rw [h, List.append_nil]
      have hkeep := (createPair_frame x s).2
      have hgrowth := growth_createPair x s
        (fun i => (lineAnswers x now l theirs (entry :: rest) pre.length s i).attached) 0
        (attached_lineAnswer x now l theirs entry pre.length s) rest.length
      rw [Recorded, List.length_nil, List.length_cons, Nat.sub_zero, hgrowth]
      rcases hcreate : s.createPair x with ⟨s', f | p⟩ <;> rw [hcreate] at hkeep
      · -- the first line without streams: the rest of the lines is left alone
        have hensure : s.ensurePair x pre.length = (s', .error f) := by
          rw [Session.ensurePair, if_pos hlength, hcreate]
        simp only [Session.applyLines, hensure]
        rw [hkeep, h, List.append_nil]
        exact ⟨(List.append_nil _).symm, trivial⟩
      · have hensure : s.ensurePair x pre.length =
            ({ s' with pairs := s'.pairs ++ [p] }, .ok ()) := by
          rw [Session.ensurePair, if_pos hlength, hcreate]
        have hpairs : s'.pairs ++ [p] = pre ++ p :: [] := by rw [hkeep, h, List.append_nil]
        have hcons := records_cons entry hensure hpairs ih
        simp only [← growth_succ]
        exact hcons

/-- The local lines of a leg, for the pairs behind those of a list. -/
theorem records_applyLocal (now : Nat) (l : Leg) (ours theirs : Description) (lines : List Nat)
    (pre ps : List (Pair σ)) (s : Session σ) (h : s.pairs = pre ++ ps) :
    (Session.applyLocal now l ours theirs lines pre.length s).pairs.map Pair.record =
      pre.map Pair.record ++ PairRecord.afterLocal l lines.length
        (localAnswers now l ours theirs lines pre.length s) (ps.map Pair.record) := by
  induction lines generalizing pre ps s with
  | nil =>
    rw [Session.applyLocal, List.length_nil, PairRecord.afterLocal_zero, h, List.map_append]
  | cons line rest ih =>
    let f : Pair σ → Receiver → Pair σ × Receiver :=
      Session.renegotiate now l (s.detects.get l) ours theirs line
    have hanswers : (fun i => localAnswers now l ours theirs (line :: rest) pre.length s (i + 1)) =
        localAnswers now l ours theirs rest (pre.length + 1) (s.modifyPair pre.length f) :=
      funext fun i => localAnswers_succ now l ours theirs line rest pre.length s i
    rw [Session.applyLocal, List.length_cons]
    cases ps with
    | nil =>
      have hle : s.pairs.length ≤ pre.length := Nat.le_of_eq (by rw [h, List.append_nil])
      rw [modifyPair_of_le hle, applyLocal_of_le (Nat.le_succ_of_le hle), h, List.append_nil]
      exact (List.append_nil _).symm
    | cons p ps =>
      have hs' := modifyPair_split h f
      have hlength : (pre ++ [(f p s.receiver).1]).length = pre.length + 1 := by simp
      have hrecords := ih (pre ++ [(f p s.receiver).1]) ps (s.modifyPair pre.length f) (by rw [hs'])
      have hline := record_renegotiate now l (s.detects.get l) ours theirs line p s.receiver
      have hfirst : (localAnswers now l ours theirs (line :: rest) pre.length s 0).negotiated =
          negotiationAnswer now l (s.detects.get l) ours theirs line p s.receiver := by
        have hget : s.pairs[pre.length]? = some p := getElem?_split h
        simp only [localAnswers, List.getElem?_cons_zero, List.take_zero, Session.applyLocal,
          Nat.add_zero, hget]
      rw [hlength, ← hanswers] at hrecords
      rw [List.map_cons, PairRecord.afterLocal_succ, hfirst, ← hline]
      rw [List.map_append, List.map_singleton, List.append_assoc, List.singleton_append] at hrecords
      exact hrecords

/-! ## Runs -/

theorem ledger_updateLocal {s : Session σ} (h : s.stopped = false) (x : Surroundings σ)
    (now : Nat) (l : Leg) (sdp : Description) :
    (s.updateLocal now l sdp true).ledger =
        s.ledger.updateLocal l sdp (s.answers x (.localSdp now l sdp)) ∧
      (s.updateLocal now l sdp true).stopped = false := by
  have hrunning : ¬ s.stopped = true := by
    rw [h]
    decide
  let known := { s with localSdp := s.localSdp.set l sdp.normal }
  unfold Session.updateLocal
  rw [if_neg hrunning]
  by_cases he : (s.remoteSdp.get l).isEmpty = true
  · obtain ⟨hledger, hstopped⟩ := ledger_enlist (s := known) h
    have hpairs : (if (s.ledger.remoteSdp.get l).isEmpty then s.ledger.pairs
        else PairRecord.afterLocal l sdp.normal.audioMedia.length
          (s.answers x (.localSdp now l sdp)) s.ledger.pairs) = s.ledger.pairs := if_pos he
    simp only [if_pos he, Ledger.updateLocal, hpairs]
    exact ⟨hledger, hstopped⟩
  · let lines := sdp.normal.audioMedia.map (·.1)
    let after := Session.applyLocal now l sdp.normal (s.remoteSdp.get l) lines 0 known
    have hsame : Rewired known after := rewired_applyLocal now l _ _ lines 0 known
    have hrecords := records_applyLocal now l sdp.normal (s.remoteSdp.get l) lines [] s.pairs known
      rfl
    obtain ⟨hledger, hstopped⟩ := ledger_enlist (s := after) (hsame.stopped.trans h)
    have hpairs : (if (s.ledger.remoteSdp.get l).isEmpty then s.ledger.pairs
        else PairRecord.afterLocal l sdp.normal.audioMedia.length
          (s.answers x (.localSdp now l sdp)) s.ledger.pairs) = after.pairs.map Pair.record := by
      rw [List.length_map] at hrecords
      exact (if_neg he).trans hrecords.symm
    simp only [if_neg he, Ledger.updateLocal, hpairs]
    have hrequests : after.requests = s.ledger.requests :=
      requests_applyLocal now l sdp.normal _ lines 0 known
    refine ⟨hledger.trans ?_, hstopped⟩
    rw [hsame.ledger, hrequests]
    rfl

theorem ledger_updateRemote {s : Session σ} (h : s.stopped = false) (x : Surroundings σ)
    (now : Nat) (l : Leg) (sdp : Description) :
    ((s.updateRemote x now l sdp true).1.ledger, (s.updateRemote x now l sdp true).2) =
        s.ledger.updateRemote x.allocated l sdp (s.answers x (.remoteSdp now l sdp)) ∧
      (s.updateRemote x now l sdp true).1.stopped = false := by
  have hrunning : ¬ s.stopped = true := by
    rw [h]
    decide
  let known := { s with remoteSdp := s.remoteSdp.set l sdp.normal }
  let lines := sdp.normal.audioMedia
  let after := Session.applyLines x now l sdp.normal lines 0 known
  have hupdate : s.updateRemote x now l sdp true = (after.1.enlist true, after.2) := by
    rw [Session.updateRemote, if_neg hrunning]
  have hsame : Rewired known after.1 := rewired_applyLines x now l _ lines 0 known
  obtain ⟨hrecords, houtcome⟩ := records_applyLines x now l sdp.normal lines [] s.pairs known rfl
  obtain ⟨hledger, hstopped⟩ := ledger_enlist (hsame.stopped.trans h)
  have hlength : s.ledger.pairs.length = s.pairs.length := List.length_map _
  rw [List.map_nil, List.nil_append] at hrecords
  rw [hupdate, hledger, hsame.ledger]
  refine ⟨?_, hstopped⟩
  simp only [Ledger.updateRemote, List.length_map, hlength]
  have hpairs : after.1.pairs.map Pair.record = _ := hrecords
  obtain ⟨hrequests, hresult⟩ : after.1.requests = _ ∧ after.2 = _ := Prod.mk.inj houtcome
  rw [hpairs, hrequests, hresult]
  rfl

theorem ledger_update (x : Surroundings σ) {s : Session σ} (h : s.stopped = false) (u : Update) :
    ((s.update x u).1.ledger, (s.update x u).2) =
        s.ledger.update x.allocated u (s.answers x u) ∧
      (s.update x u).1.stopped = false := by
  cases u with
  | localSdp now l sdp =>
    obtain ⟨hledger, hstopped⟩ := ledger_updateLocal h x now l sdp
    refine ⟨?_, hstopped⟩
    rw [Session.update, Ledger.update, hledger]
  | remoteSdp now l sdp => exact ledger_updateRemote h x now l sdp

/-- **Main theorem**: a session that was not stopped shows after any run of updates what its ledger
says, whatever the surroundings answer, and every update gives back what the ledger says. The ledger
opens pairs for the streams that the surroundings allocate, up to the first request in vain. -/
theorem ledger_run (x : Surroundings σ) {s : Session σ} (h : s.stopped = false)
    (us : List Update) :
    ((s.run x us).1.ledger, (s.run x us).2) = s.ledger.run x.allocated (s.transcript x us) := by
  induction us generalizing s with
  | nil => rfl
  | cons u us ih =>
    obtain ⟨hledger, hstopped⟩ := ledger_update x h u
    have hrest := ih hstopped
    rw [Session.transcript, Ledger.run, ← hledger]
    simp only [← hrest]
    rfl

/-- Surroundings with streams for one pair. -/
def sampleSurroundings : Surroundings Rehearsal.ScriptedStream where
  settings := Settings.Bridging.standard
  allocate n _ :=
    if n < 2 then .ok (Rehearsal.ScriptedStream.onPort (UInt16.ofNat (5000 + n)))
    else .error (.portsExhausted 5000 5001)

/-- A description with an audio line for each list of payload types. -/
def sampleLines (types : List (List UInt8)) : Description :=
  { Description.empty with
    media := types.map fun pts => Media.audio 4000 (pts.map Sdp.Payload.ofType) }

/-- Both legs, one audio line each, but for a second line that gets no streams. -/
def sampleUpdates : List Update :=
  [.localSdp 0 .a (sampleLines [[0], [8]]), .localSdp 1 .b (sampleLines [[0, 8]]),
    .remoteSdp 2 .b (sampleLines [[0]]), .remoteSdp 3 .a (sampleLines [[0, 101], [8]])]

/-- A session before its first update. -/
def sampleSession : Session Rehearsal.ScriptedStream :=
  Session.fresh ⟨"s"⟩ "g" ⟨false, true⟩ (Receiver.idle [])

theorem ledger_run_sample : sampleSession.stopped = false ∧
    ((sampleSession.run sampleSurroundings sampleUpdates).1.ledger,
        (sampleSession.run sampleSurroundings sampleUpdates).2) =
      sampleSession.ledger.run sampleSurroundings.allocated
        (sampleSession.transcript sampleSurroundings sampleUpdates) :=
  ⟨rfl, ledger_run sampleSurroundings rfl sampleUpdates⟩

example : (sampleSession.run sampleSurroundings sampleUpdates).2 =
    [.ok (), .ok (), .ok (), .error (.portsExhausted 5000 5001)] := rfl

example : (sampleSession.run sampleSurroundings sampleUpdates).1.ledger.pairs =
    [⟨⟨⟨5000, some (PayloadMask.ofList [0])⟩, true⟩,
      ⟨⟨5001, some (PayloadMask.ofList [0, 101])⟩, true⟩⟩] := by decide

end CallBridge.Bridge
