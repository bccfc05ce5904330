import CallBridge.Dtmf.Detector

/-!
# Key detection and framing

Audio comes to a detector in pieces that have nothing to do with the blocks that it is analysed in.
How the audio is cut makes no difference to what is found, only to the timestamps: these are erased
first, and then a detector that hears pieces one after the other is one that hears all of them at
once. Neither do events that wait or are collected make a difference to what is heard.

Results:
* `Detector.process_preceded`: events that wait.
* `Detector.process_append`: a piece cut in two.
* `Detector.untimed_process`: timestamps erased before a piece is heard, or after.
* `Detector.hears_eq`: a detector that runs is one case of any analysis.
* `Detector.untimed_hearsBy`: pieces heard one by one, and all at once.
* `Detector.serve_eq`: events collected in between.
* `Detector.framing_independent`: what is found depends on the audio alone.
-/

namespace CallBridge.Dtmf

/-- Pieces of audio with the timestamps that they were read at. -/
abbrev Pieces := List (UInt64 × List UInt8)

namespace Detector

/-- The detector after it heard pieces of audio. -/
def hears (d : Detector) (pieces : Pieces) : Detector :=
  pieces.foldl (fun d piece => d.process d.tones piece.1 piece.2) d

theorem hears_nil (d : Detector) : d.hears [] = d := rfl

theorem hears_cons (d : Detector) (piece : UInt64 × List UInt8) (pieces : Pieces) :
    d.hears (piece :: pieces) = (d.process d.tones piece.1 piece.2).hears pieces := rfl

theorem hears_append (d : Detector) (before after : Pieces) :
    d.hears (before ++ after) = (d.hears before).hears after := List.foldl_append

/-! ## Blocks -/

theorem feed_of_full (analysis : Analysis) (ts : UInt64) (d : Detector) {xs : List Int16}
    (h : 0 < d.blockLength ∧ (xs.take d.blockLength).length = d.blockLength) :
    feed analysis ts d xs = feed analysis ts (d.onBlock ts (analysis (xs.take d.blockLength)))
      (xs.drop d.blockLength) := by
  rw [feed]
  exact dif_pos h

theorem feed_of_partial (analysis : Analysis) (ts : UInt64) (d : Detector) {xs : List Int16}
    (h : ¬ (0 < d.blockLength ∧ (xs.take d.blockLength).length = d.blockLength)) :
    feed analysis ts d xs = { d with partialBlock := xs } := by
  rw [feed]
  exact dif_neg h

/-! ## Events that wait -/

/-- The detector with events that wait before its own. -/
def preceded (d : Detector) (events : List Event) : Detector :=
  { d with events := events ++ d.events }

theorem preceded_preceded (d : Detector) (events more : List Event) :
    (d.preceded more).preceded events = d.preceded (events ++ more) := by
  simp only [preceded, List.append_assoc]

theorem onBlock_preceded (d : Detector) (events : List Event) (ts : UInt64) (heard : Option Key) :
    (d.preceded events).onBlock ts heard = (d.onBlock ts heard).preceded events := by
  simp only [onBlock, preceded, List.append_assoc]
  rfl

theorem feed_preceded (analysis : Analysis) (ts : UInt64) (d : Detector) (xs : List Int16)
    (events : List Event) :
    feed analysis ts (d.preceded events) xs = (feed analysis ts d xs).preceded events := by
  induction d, xs using feed.induct analysis ts with
  | case1 d xs block hfull ih =>
    rw [feed_of_full analysis ts d hfull, ← ih, ← onBlock_preceded]
    exact feed_of_full analysis ts (d.preceded events) hfull
  | case2 d xs block hpartial =>
    rw [feed_of_partial analysis ts d hpartial]
    exact feed_of_partial analysis ts (d.preceded events) hpartial

/-- Events that wait make no difference to what is heard. -/
theorem process_preceded (analysis : Analysis) (d : Detector) (events : List Event) (ts : UInt64)
    (pcm : List UInt8) : (d.preceded events).process analysis ts pcm =
      (d.process analysis ts pcm).preceded events := feed_preceded analysis ts d _ events

/-! ## Audio cut in two -/

section

variable (analysis : Analysis) (ts : UInt64)

/-- The samples of an incomplete block count only where they are put before what arrives. -/
theorem feed_withPartial (d : Detector) (xs rest : List Int16) :
    feed analysis ts { d with partialBlock := rest } xs = feed analysis ts d xs := by
  induction d, xs using feed.induct analysis ts with
  | case1 d xs block hfull ih =>
    rw [feed_of_full analysis ts d hfull, ← ih]
    exact feed_of_full analysis ts { d with partialBlock := rest } hfull
  | case2 d xs block hpartial =>
    rw [feed_of_partial analysis ts d hpartial]
    exact feed_of_partial analysis ts { d with partialBlock := rest } hpartial

theorem feed_append (d : Detector) (xs ys : List Int16) :
    feed analysis ts (feed analysis ts d xs) ((feed analysis ts d xs).partialBlock ++ ys) =
      feed analysis ts d (xs ++ ys) := by
  induction d, xs using feed.induct analysis ts with
  | case1 d xs block hfull ih =>
    have hlen : d.blockLength ≤ xs.length := by
      rw [← hfull.2]
      exact List.length_take_le' ..
    have hblock : (xs ++ ys).take d.blockLength = xs.take d.blockLength :=
      List.take_append_of_le_length hlen
    have hfull' : 0 < d.blockLength ∧ ((xs ++ ys).take d.blockLength).length = d.blockLength := by
      rw [hblock]
      exact hfull
    rw [feed_of_full analysis ts d hfull, ih, feed_of_full analysis ts d hfull', hblock,
      List.drop_append_of_le_length hlen]
  | case2 d xs block hpartial =>
    rw [feed_of_partial analysis ts d hpartial]
    exact feed_withPartial analysis ts d (xs ++ ys) xs

theorem rate_feed (d : Detector) (xs : List Int16) : (feed analysis ts d xs).rate = d.rate := by
  induction d, xs using feed.induct analysis ts with
  | case1 d xs block hfull ih =>
    rw [feed_of_full analysis ts d hfull]
    exact ih
  | case2 d xs block hpartial => rw [feed_of_partial analysis ts d hpartial]

theorem rate_process (d : Detector) (pcm : List UInt8) :
    (d.process analysis ts pcm).rate = d.rate := rate_feed analysis ts d _

theorem tones_process (d : Detector) (pcm : List UInt8) :
    (d.process analysis ts pcm).tones = d.tones := by
  rw [tones, rate_process, ← tones]

/-- What is left over is less than a block. -/
theorem length_partialBlock_feed (d : Detector) (hd : 0 < d.blockLength) (xs : List Int16) :
    (feed analysis ts d xs).partialBlock.length < d.blockLength := by
  induction d, xs using feed.induct analysis ts with
  | case1 d xs block hfull ih =>
    rw [feed_of_full analysis ts d hfull]
    exact ih hd
  | case2 d xs block hpartial =>
    rw [feed_of_partial analysis ts d hpartial]
    have hshort : (xs.take d.blockLength).length ≠ d.blockLength := fun h => hpartial ⟨hd, h⟩
    rw [List.length_take] at hshort
    show xs.length < d.blockLength
    omega

/-- Audio may be cut between two samples. -/
theorem process_append (d : Detector) {front : List UInt8} (h : front.length % 2 = 0)
    (rest : List UInt8) : (d.process analysis ts front).process analysis ts rest =
      d.process analysis ts (front ++ rest) := by
  have hsamples := Audio.samples_append h rest
  rw [process, process, process, hsamples, ← List.append_assoc]
  exact feed_append analysis ts d _ _

end

end Detector

/-! ## Timestamps erased -/

/-- The event at no particular time. -/
def Event.untimed (e : Event) : Event := { e with start := 0 }

/-- The press at no particular time. -/
def Press.untimed (p : Press) : Press := { p with start := 0 }

/-- What is known, at no particular time. -/
def Debouncer.untimed (d : Debouncer) : Debouncer :=
  ⟨d.last.map fun run => (run.1, 0), d.active.map Press.untimed⟩

namespace Debouncer

theorem untimed_runOf (last : Option (Key × UInt64)) (ts : UInt64) (heard : Option Key) :
    runOf (last.map fun run => (run.1, 0)) 0 heard =
      (runOf last ts heard).map fun run => (run.1, 0) := by
  cases heard with
  | none => rfl
  | some key =>
    cases last with
    | none => rfl
    | some run =>
      by_cases h : run.1 = key
      · simp only [runOf, Option.map_some, if_pos h]
      · simp only [runOf, Option.map_some, if_neg h]

theorem untimed_advance (d : Debouncer) (heard : Option Key) :
    d.untimed.advance heard =
      ((d.advance heard).1.map Press.untimed, (d.advance heard).2.map Press.untimed) := by
  obtain ⟨last, active⟩ := d
  cases active with
  | some p =>
    simp only [advance, untimed, Option.map_some, Press.untimed]
    split
    · rfl
    · split <;> rfl
  | none =>
    cases heard with
    | none => rfl
    | some key =>
      cases last with
      | none => rfl
      | some run =>
        simp only [advance, untimed, Option.map_some, Option.map_none]
        split <;> rfl

/-- Timestamps may be erased before a block is heard. -/
theorem untimed_step (d : Debouncer) (ts : UInt64) (heard : Option Key) :
    d.untimed.step 0 heard =
      ((d.step ts heard).1.untimed, (d.step ts heard).2.map Press.untimed) := by
  rw [step, untimed_advance]
  exact congrArg (fun last => (Debouncer.mk last _, _)) (untimed_runOf d.last ts heard)

end Debouncer

namespace Detector

/-- The detector at no particular time. -/
def untimed (d : Detector) : Detector :=
  { d with debouncer := d.debouncer.untimed, events := d.events.map Event.untimed }

theorem onBlock_eq (d : Detector) (ts : UInt64) (heard : Option Key) :
    d.onBlock ts heard = { d with
      debouncer := (d.debouncer.step ts heard).1
      events := d.events ++ ((d.debouncer.step ts heard).2.map d.eventOf).toList } := rfl

theorem untimed_onBlock (d : Detector) (ts : UInt64) (heard : Option Key) :
    (d.onBlock ts heard).untimed = d.untimed.onBlock 0 heard := by
  have hstep : d.untimed.debouncer.step 0 heard = _ := d.debouncer.untimed_step ts heard
  have hdone (done : Option Press) : (done.map d.eventOf).toList.map Event.untimed =
      ((done.map Press.untimed).map d.untimed.eventOf).toList := by cases done <;> rfl
  rw [onBlock_eq, onBlock_eq, hstep]
  simp only [untimed, List.map_append, hdone]

theorem untimed_feed (analysis : Analysis) (ts : UInt64) (d : Detector) (xs : List Int16) :
    (feed analysis ts d xs).untimed = feed analysis 0 d.untimed xs := by
  induction d, xs using feed.induct analysis ts with
  | case1 d xs block hfull ih =>
    rw [feed_of_full analysis ts d hfull, ih, untimed_onBlock]
    exact (feed_of_full analysis 0 d.untimed hfull).symm
  | case2 d xs block hpartial =>
    rw [feed_of_partial analysis ts d hpartial]
    exact (feed_of_partial analysis 0 d.untimed hpartial).symm

/-- Timestamps may be erased before audio is heard. -/
theorem untimed_process (analysis : Analysis) (d : Detector) (ts : UInt64) (pcm : List UInt8) :
    (d.process analysis ts pcm).untimed = d.untimed.process analysis 0 pcm :=
  untimed_feed analysis ts d _

/-! ## Pieces -/

section

variable (analysis : Analysis)

/-- The detector after it heard pieces of audio by an analysis. -/
def hearsBy (d : Detector) (pieces : Pieces) : Detector :=
  pieces.foldl (fun d piece => d.process analysis piece.1 piece.2) d

theorem hearsBy_nil (d : Detector) : d.hearsBy analysis [] = d := rfl

theorem hearsBy_cons (d : Detector) (piece : UInt64 × List UInt8) (pieces : Pieces) :
    d.hearsBy analysis (piece :: pieces) =
      (d.process analysis piece.1 piece.2).hearsBy analysis pieces := rfl

theorem hearsBy_preceded (d : Detector) (events : List Event) (pieces : Pieces) :
    (d.preceded events).hearsBy analysis pieces =
      (d.hearsBy analysis pieces).preceded events := by
  induction pieces generalizing d with
  | nil => rfl
  | cons piece pieces ih =>
    rw [hearsBy_cons, hearsBy_cons, process_preceded, ih]

/-- Detectors hear by the tones of their sampling rate. -/
theorem hears_eq (d : Detector) (pieces : Pieces) : d.hears pieces = d.hearsBy d.tones pieces := by
  induction pieces generalizing d with
  | nil => rw [hears_nil, hearsBy_nil]
  | cons piece pieces ih => rw [hears_cons, ih, tones_process, hearsBy_cons]

/-- **Step and run**: but for timestamps, hearing pieces one after the other is hearing all of them
at once. -/
theorem untimed_hearsBy (d : Detector) (hd : d.partialBlock.length < d.blockLength)
    {pieces : Pieces} (heven : ∀ piece ∈ pieces, piece.2.length % 2 = 0) :
    (d.hearsBy analysis pieces).untimed =
      d.untimed.process analysis 0 (pieces.flatMap (·.2)) := by
  induction pieces generalizing d with
  | nil => exact (process_nil analysis (d := d.untimed) 0 hd).symm
  | cons piece pieces ih =>
    have hlength : (d.process analysis piece.1 piece.2).blockLength = d.blockLength := by
      rw [blockLength, rate_process]
      rfl
    have hshort : (d.process analysis piece.1 piece.2).partialBlock.length < d.blockLength :=
      length_partialBlock_feed analysis piece.1 d (Nat.zero_lt_of_lt hd) _
    rw [hearsBy_cons, ih _ (by rw [hlength]; exact hshort) fun p hp =>
      heven p (List.mem_cons_of_mem piece hp), untimed_process, List.flatMap_cons,
      process_append analysis 0 d.untimed (heven piece List.mem_cons_self)]

end

/-! ## Events collected in between -/

/-- What a detector may be asked: to hear a piece of audio, or for the events that wait. -/
inductive Request where
  | hear (ts : UInt64) (pcm : List UInt8)
  | drain
deriving DecidableEq, Repr, Inhabited

/-- The piece of audio that is to be heard. -/
def Request.piece? : Request → Option (UInt64 × List UInt8)
  | hear ts pcm => some (ts, pcm)
  | drain => none

/-- The detector after a request, and the events that were collected. -/
def request (analysis : Analysis) (d : Detector) : Request → Detector × List Event
  | .hear ts pcm => (d.process analysis ts pcm, [])
  | .drain => d.drain

/-- The detector after requests, and the events that were collected one time after the other. -/
def serve (analysis : Analysis) (d : Detector) : List Request → Detector × List Event
  | [] => (d, [])
  | r :: requests =>
    let (d, events) := d.request analysis r
    let (d, more) := serve analysis d requests
    (d, events ++ more)

/-- Collecting events splits the list of them, and does nothing else. -/
theorem serve_eq (analysis : Analysis) (d : Detector) (requests : List Request) :
    (d.serve analysis requests).1.preceded (d.serve analysis requests).2 =
      d.hearsBy analysis (requests.filterMap Request.piece?) := by
  induction requests generalizing d with
  | nil => rfl
  | cons r requests ih =>
    cases r with
    | hear ts pcm => exact ih (d.process analysis ts pcm)
    | drain =>
      have hall : d.drain.1.preceded d.events = d := by
        rw [preceded, drain, List.append_nil]
      have hrest := congrArg (preceded · d.events) (ih d.drain.1)
      rw [preceded_preceded, ← hearsBy_preceded, hall] at hrest
      exact hrest

/-! ## Main theorem -/

theorem partialBlock_ofRate (rate : UInt32) :
    (ofRate rate).partialBlock.length < (ofRate rate).blockLength := by
  have hrate : 8000 ≤ (ofRate rate).rate.toNat := by
    show 8000 ≤ (if rate ≤ 8000 then 8000 else rate : UInt32).toNat
    split
    · exact Nat.le_refl 8000
    · next h => exact Nat.le_of_lt (UInt32.lt_iff_toNat_lt.1 (UInt32.not_le.1 h))
  have hblock : 0 < 205 * (ofRate rate).rate.toNat / 8000 :=
    Nat.div_pos (Nat.le_trans hrate (Nat.le_mul_of_pos_left _ (by decide))) (by decide)
  exact hblock

/-- **Main theorem**: what a detector finds does not depend on framing.

The same audio is cut into pieces in two ways, never within a sample, and a new detector hears each
cut, at whatever timestamps. Both are left with the same incomplete block and the same press in
progress, and have found the same keys with the same codes and durations. Where events are collected
in between, those collected and those that wait are the events of a detector that keeps them, in the
same order, and nothing else is different. -/
theorem framing_independent (rate : UInt32) (analysis : Analysis) {pieces pieces' : Pieces}
    (heven : ∀ piece ∈ pieces ++ pieces', piece.2.length % 2 = 0)
    (haudio : pieces.flatMap (·.2) = pieces'.flatMap (·.2)) :
    let d := (ofRate rate).hearsBy analysis pieces
    let d' := (ofRate rate).hearsBy analysis pieces'
    d.partialBlock = d'.partialBlock ∧
      d.debouncer.active.map (fun p => (p.key, p.blocks, p.missing)) =
        d'.debouncer.active.map (fun p => (p.key, p.blocks, p.missing)) ∧
      d.debouncer.last.map Prod.fst = d'.debouncer.last.map Prod.fst ∧
      d.events.map (fun e => (e.key.digit, e.key.code, e.durationMs)) =
        d'.events.map (fun e => (e.key.digit, e.key.code, e.durationMs)) ∧
      ∀ requests : List Request, requests.filterMap Request.piece? = pieces →
        let served := (ofRate rate).serve analysis requests
        served.1.partialBlock = d.partialBlock ∧ served.1.debouncer = d.debouncer ∧
          served.2 ++ served.1.events = d.events := by
  intro d d'
  have hshort := partialBlock_ofRate rate
  have hsame : d.untimed = d'.untimed := by
    rw [untimed_hearsBy analysis _ hshort fun piece hp => heven piece (List.mem_append_left _ hp),
      untimed_hearsBy analysis _ hshort fun piece hp => heven piece (List.mem_append_right _ hp),
      haudio]
  refine ⟨congrArg (·.partialBlock) hsame, ?_, ?_, ?_, fun requests hrequests => ?_⟩
  · have hactive := congrArg
      (fun d => d.debouncer.active.map fun p => (p.key, p.blocks, p.missing)) hsame
    simp only [untimed, Debouncer.untimed, Option.map_map] at hactive
    exact hactive
  · have hlast := congrArg (fun d => d.debouncer.last.map Prod.fst) hsame
    simp only [untimed, Debouncer.untimed, Option.map_map] at hlast
    exact hlast
  · have hevents := congrArg
      (fun d => d.events.map fun e => (e.key.digit, e.key.code, e.durationMs)) hsame
    simp only [untimed, List.map_map] at hevents
    exact hevents
  · have hserved := serve_eq analysis (ofRate rate) requests
    rw [hrequests] at hserved
    exact ⟨congrArg (·.partialBlock) hserved, congrArg (·.debouncer) hserved,
      congrArg (·.events) hserved⟩

/-- Five blocks of audio in two pieces, one of which ends within a block. -/
def sampleCut : Pieces := [(0, List.replicate 1000 1), (320, List.replicate 1050 1)]

theorem framing_independent_sampleCut :
    (∀ piece ∈ sampleCut ++ [(7, List.replicate 2050 1)], piece.2.length % 2 = 0) ∧
    sampleCut.flatMap (·.2) = [((7 : UInt64), List.replicate 2050 (1 : UInt8))].flatMap (·.2) ∧
    ((ofRate 8000).hearsBy (fun _ => some ⟨1, 1⟩) sampleCut).debouncer.active.map (·.blocks) =
      ((ofRate 8000).hearsBy (fun _ => some ⟨1, 1⟩)
        [(7, List.replicate 2050 1)]).debouncer.active.map (·.blocks) := by
  have heven : ∀ piece ∈ sampleCut ++ [(7, List.replicate 2050 1)], piece.2.length % 2 = 0 := by
    intro piece hp
    simp only [sampleCut, List.mem_append, List.mem_cons, List.not_mem_nil, or_false] at hp
    rcases hp with (rfl | rfl) | rfl <;> simp only [List.length_replicate]
  have haudio : sampleCut.flatMap (·.2) =
      [((7 : UInt64), List.replicate 2050 (1 : UInt8))].flatMap (·.2) := by
    simp only [sampleCut, List.flatMap_cons, List.flatMap_nil, List.append_nil,
      List.replicate_append_replicate]
  have hpress := (framing_independent 8000 (fun _ => some ⟨1, 1⟩) heven haudio).2.1
  refine ⟨heven, haudio, ?_⟩
  have hblocks := congrArg (Option.map fun p : Key × Nat × Nat => p.2.1) hpress
  rw [Option.map_map, Option.map_map] at hblocks
  exact hblocks

end Detector

end CallBridge.Dtmf
