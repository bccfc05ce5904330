import CallBridge.Bridge.Session
import CallBridge.Proofs.Buffer.DropOldest
import CallBridge.Rehearsal.ScriptedStream

/-!
# Whole samples of alternate audio

The ring buffer that is attached to a leg counts bytes, those who write to it and read from it count
samples of two bytes. All that was ever accepted makes one tape; what was read, lost or given up is
gone from its front, and the buffer holds the rest. So whole samples are read as long as an even
number of bytes is gone.

A buffer that overflows is full, so that it loses an even number of bytes if its capacity is even.
If the capacity is odd it loses an odd number, and from then on what is read is put together of
halves of two samples each. Only a buffer of a single byte never overflows, since it refuses every
sample.

Results:
* `Tape.Holds.serve`: the buffer holds the rest of the tape, and what is read is a piece of it.
* `Tape.Whole.serve`: an even number of bytes is gone, if the capacity is even.
* `exists_halved`: in an odd capacity a run goes wrong.
* `Session.whole_samples_iff`: for which capacities a leg is played whole samples.
* `Session.not_whole_samples`: not for all that the settings may have.
-/

namespace CallBridge.Buffer

/-! ## The tape -/

/-- All bytes that were accepted, one after the other, and how many of them are gone. -/
structure Tape where
  accepted : List UInt8
  gone : Nat
deriving Repr, Inhabited

/-- What was read at one time: the place on the tape where it starts, and the bytes. -/
structure Reading where
  start : Nat
  bytes : List UInt8
deriving DecidableEq, Repr, Inhabited

/-- The tape before anything was accepted. -/
def Tape.blank : Tape := ⟨[], 0⟩

/-- The tape after a request was answered, and what was read. -/
def Tape.note (t : Tape) : Request → Answer → Tape × Option Reading
  | .write _ data, .written (.ok w) => (⟨t.accepted ++ data, t.gone + w.dropped⟩, none)
  | .read _, .filled out (.ok n) => ({ t with gone := t.gone + n }, some ⟨t.gone, out.take n⟩)
  | .close, .cleared => ({ t with gone := t.accepted.length }, none)
  | _, _ => (t, none)

/-- The tape after requests were answered, and all that was read. -/
def Tape.noteAll (t : Tape) : List (Request × Answer) → Tape × List Reading
  | [] => (t, [])
  | (request, answer) :: rest =>
    let (t, reading) := t.note request answer
    let (t, readings) := t.noteAll rest
    (t, reading.toList ++ readings)

/-- The bytes stand on a tape at the place where they are said to start. -/
def Reading.IsPieceOf (r : Reading) (accepted : List UInt8) : Prop :=
  r.bytes <+: accepted.drop r.start

/-- Whole samples: an even number of bytes, which start at an even place if there are any. -/
structure Reading.IsWhole (r : Reading) : Prop where
  start : r.bytes ≠ [] → 2 ∣ r.start
  length : 2 ∣ r.bytes.length

/-- Whole samples are written, and buffers for whole samples are read into. -/
def Request.IsWhole : Request → Prop
  | .write _ data => 2 ∣ data.length
  | .read out => 2 ∣ out.length
  | .close => True

theorem Reading.IsPieceOf.append {r : Reading} {accepted : List UInt8} (h : r.IsPieceOf accepted)
    (more : List UInt8) : r.IsPieceOf (accepted ++ more) := by
  rw [IsPieceOf, List.drop_append]
  exact h.trans (List.prefix_append _ _)

/-! ## What a queue holds of the tape -/

/-- A queue holds what is not gone from the tape, and no more than fits. -/
structure Tape.Holds (t : Tape) (q : BoundedQueue) : Prop where
  gone_le : t.gone ≤ t.accepted.length
  held_eq : q.held = t.accepted.drop t.gone
  held_le : q.held.length ≤ q.capacity

/-- Whole samples were accepted, and whole samples are gone. -/
structure Tape.Whole (t : Tape) : Prop where
  accepted : 2 ∣ t.accepted.length
  gone : 2 ∣ t.gone

theorem Tape.Holds.blank (capacity : Nat) : Tape.blank.Holds (.empty capacity) :=
  ⟨le_rfl, rfl, Nat.zero_le _⟩

theorem Tape.Whole.blank : Tape.blank.Whole := ⟨Nat.dvd_zero 2, Nat.dvd_zero 2⟩

theorem Tape.Holds.length_held {t : Tape} {q : BoundedQueue} (h : t.Holds q) :
    q.held.length = t.accepted.length - t.gone := by
  rw [h.held_eq, List.length_drop]

/-! ## Requests -/

/-- The queue after a request. -/
def BoundedQueue.after (q : BoundedQueue) (request : Request) : BoundedQueue :=
  (q.perform request.operation).1

/-- The tape after what a queue answered to a request, and what was read. -/
def Tape.serve (t : Tape) (q : BoundedQueue) (request : Request) : Tape × Option Reading :=
  t.note request (q.perform request.operation).2

@[simp] theorem BoundedQueue.capacity_after (q : BoundedQueue) (request : Request) :
    (q.after request).capacity = q.capacity := capacity_perform q _

theorem BoundedQueue.after_refused {q : BoundedQueue} (writer : Nat) {data : List UInt8}
    (h : q.capacity < data.length) : q.after (.write writer data) = q := by
  simp only [after, Request.operation, perform, write, if_pos h]

theorem BoundedQueue.held_after_write {q : BoundedQueue} (writer : Nat) {data : List UInt8}
    (h : data.length ≤ q.capacity) : (q.after (.write writer data)).held =
      q.held.drop (q.held.length + data.length - q.capacity) ++ data := (held_write h).1

variable {t : Tape} {q : BoundedQueue}

theorem serve_refused (t : Tape) (writer : Nat) {data : List UInt8}
    (h : q.capacity < data.length) : t.serve q (.write writer data) = (t, none) := by
  simp only [Tape.serve, Request.operation, BoundedQueue.perform, BoundedQueue.write, if_pos h,
    Tape.note]

theorem serve_write (t : Tape) (writer : Nat) {data : List UInt8}
    (h : data.length ≤ q.capacity) : t.serve q (.write writer data) =
      (⟨t.accepted ++ data, t.gone + (q.held.length + data.length - q.capacity)⟩, none) := by
  simp only [Tape.serve, Request.operation, BoundedQueue.perform, (BoundedQueue.held_write h).2,
    Tape.note]
  split
  · next hlost => rw [hlost, Written.dropped]
  · rw [Written.dropped]

theorem serve_read (t : Tape) (q : BoundedQueue) (out : List UInt8) : t.serve q (.read out) =
    ({ t with gone := t.gone + min out.length q.held.length },
      some ⟨t.gone, q.held.take out.length⟩) := by
  show ((⟨_, t.gone + (q.held.take out.length).length⟩ : Tape), some (⟨t.gone,
    (q.held.take out.length ++ out.drop (q.held.take out.length).length).take
      (q.held.take out.length).length⟩ : Reading)) = _
  rw [List.take_left, List.length_take]

theorem serve_close (t : Tape) (q : BoundedQueue) :
    t.serve q .close = ({ t with gone := t.accepted.length }, none) := rfl

/-- **Step**: a queue holds the rest of the tape, of which nothing that was accepted changes, and
what is read is a piece of it. -/
theorem Tape.Holds.serve (h : t.Holds q) (request : Request) :
    (t.serve q request).1.Holds (q.after request) ∧
      t.accepted <+: (t.serve q request).1.accepted ∧
      ∀ reading ∈ (t.serve q request).2, reading.IsPieceOf t.accepted := by
  have hgone := h.gone_le
  have hlength := h.length_held
  have hheld_le := h.held_le
  cases request with
  | write writer data =>
    by_cases htoo : q.capacity < data.length
    · rw [serve_refused t writer htoo, BoundedQueue.after_refused writer htoo]
      exact ⟨h, List.prefix_rfl, nofun⟩
    · have hfits : data.length ≤ q.capacity := Nat.le_of_not_lt htoo
      rw [serve_write t writer hfits]
      refine ⟨⟨?_, ?_, ?_⟩, List.prefix_append _ _, nofun⟩
      · show t.gone + (q.held.length + data.length - q.capacity) ≤ (t.accepted ++ data).length
        rw [List.length_append]
        omega
      · show _ = (t.accepted ++ data).drop (t.gone + (q.held.length + data.length - q.capacity))
        rw [BoundedQueue.held_after_write writer hfits,
          List.drop_append_of_le_length (by omega), ← List.drop_drop, ← h.held_eq]
      · rw [BoundedQueue.held_after_write writer hfits, BoundedQueue.capacity_after,
          List.length_append, List.length_drop]
        omega
  | read out =>
    rw [serve_read]
    refine ⟨⟨?_, ?_, ?_⟩, List.prefix_rfl, ?_⟩
    · show t.gone + min out.length q.held.length ≤ t.accepted.length
      omega
    · show q.held.drop out.length = t.accepted.drop (t.gone + min out.length q.held.length)
      rw [List.drop_eq_drop_min, ← List.drop_drop, ← h.held_eq]
    · show (q.held.drop out.length).length ≤ q.capacity
      rw [List.length_drop]
      omega
    · rintro reading ⟨rfl⟩
      rw [Reading.IsPieceOf, ← h.held_eq]
      exact List.take_prefix _ _
  | close =>
    rw [serve_close]
    exact ⟨⟨le_rfl, List.drop_length.symm, Nat.zero_le _⟩, List.prefix_rfl, nofun⟩

/-- **Step**: if whole samples are asked for, whole samples are gone and whole samples are read, as
long as the capacity is even or nothing is ever taken. -/
theorem Tape.Whole.serve (hw : t.Whole) (h : t.Holds q)
    (hcapacity : 2 ∣ q.capacity ∨ q.capacity = 1) {request : Request} (hrequest : request.IsWhole) :
    (t.serve q request).1.Whole ∧ ∀ reading ∈ (t.serve q request).2, reading.IsWhole := by
  obtain ⟨haccepted, hgone⟩ := hw
  have hlength := h.length_held
  have hgone_le := h.gone_le
  have hheld_le := h.held_le
  cases request with
  | write writer data =>
    have hdata : 2 ∣ data.length := hrequest
    by_cases htoo : q.capacity < data.length
    · rw [serve_refused t writer htoo]
      exact ⟨⟨haccepted, hgone⟩, nofun⟩
    · rw [serve_write t writer (Nat.le_of_not_lt htoo)]
      refine ⟨⟨?_, ?_⟩, nofun⟩
      · show 2 ∣ (t.accepted ++ data).length
        rw [List.length_append]
        omega
      · show 2 ∣ t.gone + (q.held.length + data.length - q.capacity)
        omega
  | read out =>
    have hout : 2 ∣ out.length := hrequest
    rw [serve_read]
    refine ⟨⟨haccepted, ?_⟩, ?_⟩
    · show 2 ∣ t.gone + min out.length q.held.length
      omega
    · rintro reading ⟨rfl⟩
      refine ⟨fun _ => hgone, ?_⟩
      show 2 ∣ (q.held.take out.length).length
      rw [List.length_take]
      omega
  | close => exact ⟨⟨haccepted, haccepted⟩, nofun⟩

/-! ## Runs -/

/-- The tape after what a queue answered to requests, and all that was read. -/
def Tape.serveAll (t : Tape) (q : BoundedQueue) (requests : List Request) : Tape × List Reading :=
  t.noteAll (requests.zip (q.run (requests.map Request.operation)).2)

theorem serveAll_cons (t : Tape) (q : BoundedQueue) (request : Request) (requests : List Request) :
    t.serveAll q (request :: requests) =
      let (t', reading) := t.serve q request
      let (t'', readings) := t'.serveAll (q.after request) requests
      (t'', reading.toList ++ readings) := rfl

/-- **Run**: all that is read is a piece of the tape. -/
theorem Tape.Holds.serveAll (h : t.Holds q) (requests : List Request) :
    t.accepted <+: (t.serveAll q requests).1.accepted ∧
      ∀ reading ∈ (t.serveAll q requests).2,
        reading.IsPieceOf (t.serveAll q requests).1.accepted := by
  induction requests generalizing t q with
  | nil => exact ⟨List.prefix_rfl, nofun⟩
  | cons request requests ih =>
    obtain ⟨hnext, hprefix, hpiece⟩ := h.serve request
    obtain ⟨hrest, hpieces⟩ := ih hnext
    have hall := hprefix.trans hrest
    refine ⟨hall, fun reading hmem => ?_⟩
    rcases List.mem_append.1 hmem with hmem | hmem
    · obtain ⟨more, hmore⟩ := hall
      have hread := (hpiece reading (Option.mem_toList.1 hmem)).append more
      rwa [hmore] at hread
    · exact hpieces reading hmem

/-- **Run**: whole samples are read as long as whole samples are asked for. -/
theorem Tape.Whole.serveAll (hw : t.Whole) (h : t.Holds q)
    (hcapacity : 2 ∣ q.capacity ∨ q.capacity = 1) {requests : List Request}
    (hrequests : ∀ request ∈ requests, request.IsWhole) :
    ∀ reading ∈ (t.serveAll q requests).2, reading.IsWhole := by
  induction requests generalizing t q with
  | nil => exact nofun
  | cons request requests ih =>
    obtain ⟨hnext, hwhole⟩ := hw.serve h hcapacity (hrequests request List.mem_cons_self)
    have hrest := ih hnext (h.serve request).1 (by rwa [BoundedQueue.capacity_after])
      fun x hx => hrequests x (List.mem_cons_of_mem _ hx)
    intro reading hmem
    rcases List.mem_append.1 hmem with hmem | hmem
    · exact hwhole reading (Option.mem_toList.1 hmem)
    · exact hrest reading hmem

/-! ## Odd capacities -/

/-- In an odd capacity, what is read right behind a write that overflowed is no whole samples: it
starts with the second half of one. -/
theorem Tape.Whole.overflow (hw : t.Whole) (h : t.Holds q) (hodd : ¬ 2 ∣ q.capacity)
    (writer : Nat) {data : List UInt8} (hdata : 2 ∣ data.length) (hfits : data.length ≤ q.capacity)
    (hover : q.capacity < q.held.length + data.length) {out : List UInt8} (hout : out ≠ []) :
    ∃ reading ∈ (t.serveAll q [.write writer data, .read out]).2, ¬ reading.IsWhole := by
  obtain ⟨haccepted, hgone⟩ := hw
  have hlength := h.length_held
  have hheld_le := h.held_le
  refine ⟨⟨t.gone + (q.held.length + data.length - q.capacity),
    (q.after (.write writer data)).held.take out.length⟩, ?_, fun hwhole => ?_⟩
  · simp only [serveAll_cons, serve_write t writer hfits, serve_read]
    exact List.mem_cons_self
  · have hsome : (q.after (.write writer data)).held.take out.length ≠ [] := by
      have hpos := List.length_pos_iff.2 hout
      rw [BoundedQueue.held_after_write writer hfits, ← List.length_pos_iff, List.length_take,
        List.length_append]
      omega
    have hstart : 2 ∣ t.gone + (q.held.length + data.length - q.capacity) := hwhole.start hsome
    have hgone_le := h.gone_le
    omega

/-- In an odd capacity of more than one byte a run of two writes and a read goes wrong. -/
theorem exists_halved {capacity : Nat} (hodd : ¬ 2 ∣ capacity) (hone : capacity ≠ 1) :
    ∃ requests : List Request, (∀ request ∈ requests, request.IsWhole) ∧
      ∃ reading ∈ (Tape.blank.serveAll (.empty capacity) requests).2, ¬ reading.IsWhole := by
  obtain ⟨first, hfirst⟩ : ∃ first : List UInt8, first.length = capacity - 1 :=
    ⟨List.replicate (capacity - 1) 0, List.length_replicate⟩
  -- the first write leaves room for a single byte
  have hfits : first.length ≤ (BoundedQueue.empty capacity).capacity := by
    rw [hfirst]
    exact Nat.sub_le capacity 1
  have hserve : Tape.blank.serve (.empty capacity) (.write 0 first) = (⟨first, 0⟩, none) := by
    rw [serve_write _ _ hfits, Nat.sub_eq_zero_of_le (by rwa [BoundedQueue.empty, List.length_nil,
      Nat.zero_add])]
    rfl
  have hholds := ((Tape.Holds.blank capacity).serve (.write 0 first)).1
  rw [hserve] at hholds
  have hheld : ((BoundedQueue.empty capacity).after (.write 0 first)).held.length = capacity - 1 :=
    hholds.length_held.trans hfirst
  have hcapacity : ((BoundedQueue.empty capacity).after (.write 0 first)).capacity = capacity :=
    BoundedQueue.capacity_after _ _
  have hwhole : (⟨first, 0⟩ : Tape).Whole := by
    refine ⟨?_, Nat.dvd_zero 2⟩
    show 2 ∣ first.length
    omega
  have hsample : [(0 : UInt8), 0].length = 2 := rfl
  obtain ⟨reading, hmem, hhalved⟩ := hwhole.overflow hholds (by rwa [hcapacity]) 0
    (Nat.dvd_refl [(0 : UInt8), 0].length) (by omega) (by omega) (List.cons_ne_nil (0 : UInt8) [0])
  refine ⟨[.write 0 first, .write 0 [0, 0], .read [0, 0]], ?_, reading, ?_, hhalved⟩
  · intro request hrequest
    simp only [List.mem_cons, List.not_mem_nil, or_false] at hrequest
    rcases hrequest with rfl | rfl | rfl
    · exact hwhole.accepted
    · exact Nat.dvd_refl 2
    · exact Nat.dvd_refl 2
  · rw [serveAll_cons, hserve]
    exact hmem

end CallBridge.Buffer

namespace CallBridge.Audio.Feed

open Buffer (Reading Request Ring Tape)

/-! ## Feeds -/

/-- The tape of a feed, blank at first, after requests, and all that was read. -/
def tape (f : Feed) (requests : List Request) : Tape × List Reading :=
  Tape.blank.noteAll (requests.zip (f.run requests).2)

/-- As long as whole samples are written to a feed and asked of it, whole samples are read. -/
def KeepsSamples (f : Feed) : Prop :=
  ∀ requests : List Request, (∀ request ∈ requests, request.IsWhole) →
    ∀ reading ∈ (f.tape requests).2, reading.IsWhole

/-- The tape of a feed with an empty ring buffer is the tape of an empty queue. -/
theorem tape_ofRing (serial capacity : Nat) (requests : List Request) :
    (ofRing serial (Ring.ofCapacity capacity)).tape requests =
      Tape.blank.serveAll (.empty capacity) requests := by
  have hanswers := ((Ring.Holds.empty capacity).run (requests.map Request.operation)).2.1
  rw [tape, run_ofRing (Ring.Holds.empty capacity), hanswers, Tape.serveAll]

theorem keepsSamples_ofRing_iff (serial capacity : Nat) :
    (ofRing serial (Ring.ofCapacity capacity)).KeepsSamples ↔ 2 ∣ capacity ∨ capacity = 1 := by
  constructor
  · intro hkeeps
    by_contra hbad
    obtain ⟨hodd, hone⟩ := not_or.1 hbad
    obtain ⟨requests, hrequests, reading, hmem, hhalved⟩ := Buffer.exists_halved hodd hone
    rw [← tape_ofRing serial] at hmem
    exact hhalved (hkeeps requests hrequests reading hmem)
  · intro hcapacity requests hrequests reading hmem
    rw [tape_ofRing] at hmem
    exact Tape.Whole.blank.serveAll (Tape.Holds.blank capacity) hcapacity hrequests reading hmem

end CallBridge.Audio.Feed

namespace CallBridge.Bridge.Session

open Buffer (Request)
open Rtp (Receiver)

/-! ## Sessions -/

variable {σ : Type}

/-- Where there is a pair, its leg gets a feed with an empty ring buffer of the size that the
settings have. -/
theorem attachBuffered_of_lt (x : Surroundings σ) {s : Session σ} (l : Leg) {index : Nat}
    (serial : Nat) (h : index < s.pairs.length) :
    ∃ s' p, s.attachBuffered x l index serial = (s', .ok ()) ∧ s'.pairs[index]? = some p ∧
      (p.leg l).alternate =
        some (.ofRing serial (Buffer.Ring.ofCapacity x.settings.alternateBufferSize)) := by
  have hp : s.pairs[index]? = some s.pairs[index] := List.getElem?_eq_getElem h
  rw [attachBuffered, setAlternate, hp]
  exact ⟨_, _, rfl, List.getElem?_set_self h,
    congrArg LegMedia.alternate (Pair.leg_setLeg_self _ l _)⟩

/-- **Main theorem**: the feed that a leg is played from a ring buffer gives pieces of all that was
accepted from its writers, each starting where the tape tells; and these are whole samples, whatever
whole samples are written to it and asked of it, if and only if the settings have an even size of
the buffer, or a size of 1, for which no sample is ever accepted. -/
theorem whole_samples_iff (x : Surroundings σ) {s : Session σ} (l : Leg) {index : Nat}
    (serial : Nat) (h : index < s.pairs.length) :
    ∃ s' p feed, s.attachBuffered x l index serial = (s', .ok ()) ∧ s'.pairs[index]? = some p ∧
      (p.leg l).alternate = some feed ∧
      (∀ requests, ∀ reading ∈ (feed.tape requests).2,
        reading.IsPieceOf (feed.tape requests).1.accepted) ∧
      (feed.KeepsSamples ↔
        2 ∣ x.settings.alternateBufferSize ∨ x.settings.alternateBufferSize = 1) := by
  obtain ⟨s', p, hattached, hp, hfeed⟩ := attachBuffered_of_lt x l serial h
  refine ⟨s', p, _, hattached, hp, hfeed, fun requests => ?_,
    Audio.Feed.keepsSamples_ofRing_iff serial x.settings.alternateBufferSize⟩
  rw [Audio.Feed.tape_ofRing]
  exact ((Buffer.Tape.Holds.blank x.settings.alternateBufferSize).serveAll requests).2

/-- Surroundings whose settings have a buffer of some size. -/
def sizedSurroundings (size : Nat) : Surroundings Rehearsal.ScriptedStream where
  settings := { Settings.Bridging.standard with alternateBufferSize := size }
  allocate n _ := .ok (Rehearsal.ScriptedStream.onPort (UInt16.ofNat (5000 + n)))

/-- A session that asked for a pair. -/
def withPair (size : Nat) : Session Rehearsal.ScriptedStream :=
  ((fresh ⟨"s"⟩ "g" ⟨false, false⟩ (Receiver.idle [])).ensurePair (sizedSurroundings size) 0).1

theorem whole_samples_iff_six :
    0 < (withPair 6).pairs.length ∧
    ∃ s' p feed, (withPair 6).attachBuffered (sizedSurroundings 6) .b 0 7 = (s', .ok ()) ∧
      s'.pairs[0]? = some p ∧ (p.leg .b).alternate = some feed ∧
      (∀ requests, ∀ reading ∈ (feed.tape requests).2,
        reading.IsPieceOf (feed.tape requests).1.accepted) ∧
      (feed.KeepsSamples ↔ 2 ∣ 6 ∨ 6 = 1) :=
  ⟨by decide, whole_samples_iff (sizedSurroundings 6) .b 7 (by decide)⟩

/-- A buffer of five bytes, which the settings may have, loses one byte when three samples are
written to it; what is read then starts with the second half of the first of them. -/
theorem not_whole_samples :
    ¬ ∀ (server : Settings.Server) (x : Surroundings Rehearsal.ScriptedStream)
        (s s' : Session Rehearsal.ScriptedStream) (l : Leg) (index serial : Nat)
        (p : Pair Rehearsal.ScriptedStream) (feed : Audio.Feed),
      server.validate = .ok (.ok ()) → x.settings = server.bridging →
      s.attachBuffered x l index serial = (s', .ok ()) → s'.pairs[index]? = some p →
      (p.leg l).alternate = some feed → feed.KeepsSamples := by
  intro hkeeps
  let server : Settings.Server :=
    { Settings.Server.standard 1 with bridging := (sizedSurroundings 5).settings }
  have hvalid : server.validate = .ok (.ok ()) := by decide
  have hpair : 0 < (withPair 5).pairs.length := by decide
  obtain ⟨s', p, hattached, hp, hfeed⟩ :=
    attachBuffered_of_lt (sizedSurroundings 5) .a 0 hpair
  have hfive := hkeeps server (sizedSurroundings 5) (withPair 5) s' .a 0 0 p _ hvalid rfl hattached
    hp hfeed
  have hread : ((Audio.Feed.ofRing 0 (Buffer.Ring.ofCapacity 5)).tape
      [.write 0 [1, 2, 3, 4], .write 0 [5, 6], .read [0, 0, 0, 0, 0, 0]]).2 =
        [⟨1, [2, 3, 4, 5, 6]⟩] := by decide
  have hwhole := hfive [.write 0 [1, 2, 3, 4], .write 0 [5, 6], .read [0, 0, 0, 0, 0, 0]]
    (by simp [Request.IsWhole]) ⟨1, [2, 3, 4, 5, 6]⟩ (hread ▸ List.mem_singleton_self _)
  exact absurd hwhole.length (by decide)

end CallBridge.Bridge.Session
