import CallBridge.Playout.JitterBuffer
import CallBridge.Proofs.Playout.Frames

/-!
# Reading a buffer empty

Nothing enters a buffer any more, and it is read again and again, each time with room for some
bytes. Whatever is read is the front of what the buffer held, in order. Once playing began, each
further read goes on with it, so that enough reads return everything.

There is one exception. A read that returns nothing ends playing, also where it had no room for a
sample and samples were left. If fewer of them are left than must wait before playing begins, it
never begins again, and the rest stays where it is. Such a read is a stall.

Results:
* `Queue.Holds.read`: what a read takes from a queue that may be played, and what it leaves.
* `JitterBuffer.heard_prefix`: what is heard is the front of what the buffer held.
* `JitterBuffer.heard_all`: without a stall, enough room for the rest brings all of it.
* `JitterBuffer.heard_stalled`: behind a stall something is missing for ever.
* `JitterBuffer.heard_rest`: once something was heard, only a stall keeps the rest from being heard.
-/

namespace CallBridge.Playout

namespace Queue

/-- A queue holds some samples in the order in which they will be played. -/
structure Holds (q : Queue) (left : List Int16) : Prop where
  samples : q.pending ++ q.frames.flatMap (·.2) = left
  buffered : q.buffered = left.length

theorem ready_eq_true_iff (q : Queue) (target : Nat) :
    q.ready target = true ↔ q.playing = true ∨ q.buffered ≠ 0 ∧ target ≤ q.buffered := by
  simp [ready]

theorem read_waiting {q : Queue} {target : Nat} (h : ¬ q.ready target = true) (wanted : Nat) :
    q.read target wanted = (q, []) := by rw [read, if_neg h]

/-- A read takes the front of what a queue holds, and playing goes on if that was something. -/
theorem Holds.read {q : Queue} {left : List Int16} (h : q.Holds left) {target : Nat}
    (hready : q.ready target = true) (wanted : Nat) :
    (q.read target wanted).2 = left.take wanted ∧
      (q.read target wanted).1.Holds (left.drop wanted) ∧
      (q.read target wanted).1.playing = !(left.take wanted).isEmpty := by
  rw [Queue.read, if_pos hready]
  obtain ⟨gone, hsplit, htaken, -⟩ := pull_split q.mode wanted q.pending q.nextStamp q.frames
  have hlength := length_pull q.mode wanted q.pending q.nextStamp q.frames
  generalize pull q.mode wanted q.pending q.nextStamp q.frames = p at hsplit htaken hlength ⊢
  have hwhole : p.taken ++ (p.pending ++ p.frames.flatMap (·.2)) = left := by
    rw [← h.samples, hsplit, List.flatMap_append, ← List.append_assoc, htaken, List.append_assoc]
  have hcount : p.taken.length = min wanted left.length := by
    rw [hlength, ← h.samples, List.length_append, length_flatMap_frames]
  have htake : p.taken = left.take wanted := by
    rw [List.take_eq_take_min, ← hcount, ← hwhole, List.take_left]
  have hdrop : p.pending ++ p.frames.flatMap (·.2) = left.drop wanted := by
    rw [List.drop_eq_drop_min, ← hcount, ← hwhole, List.drop_left]
  have hrest : q.buffered - p.taken.length = (left.drop wanted).length := by
    rw [h.buffered, hcount, List.length_drop]
    omega
  exact ⟨htake, ⟨hdrop, hrest⟩, congrArg (fun xs => !xs.isEmpty) htake⟩

end Queue

namespace JitterBuffer

/-! ## Reads one after the other -/

/-- The buffer after reads with room for some numbers of bytes. -/
def takeAll (b : JitterBuffer) (lens : List Nat) : JitterBuffer :=
  lens.foldl (fun b len => (b.take len).1) b

/-- What reads with room for some numbers of bytes return, put behind each other. -/
def heard : JitterBuffer → List Nat → List UInt8
  | _, [] => []
  | b, len :: lens => (b.take len).2 ++ heard (b.take len).1 lens

/-- The bytes of whole samples for which some reads have room together. -/
def room : List Nat → Nat
  | [] => 0
  | len :: lens => 2 * (len / 2) + room lens

/-- Samples are left, but not enough for playing to begin. -/
def RunsLow (b : JitterBuffer) : Prop := 0 < b.buffered ∧ b.buffered < b.target

/-- Among some reads is one that has no room for a sample while the buffer runs low. -/
def Stalls : JitterBuffer → List Nat → Prop
  | _, [] => False
  | b, len :: lens => (len < 2 ∧ b.RunsLow) ∨ Stalls (b.take len).1 lens

theorem heard_append (b : JitterBuffer) (lens more : List Nat) :
    b.heard (lens ++ more) = b.heard lens ++ (b.takeAll lens).heard more := by
  induction lens generalizing b with
  | nil => rfl
  | cons len lens ih =>
    rw [List.cons_append, heard, heard, ih, List.append_assoc]
    rfl

theorem stalls_append (b : JitterBuffer) (lens more : List Nat) :
    b.Stalls (lens ++ more) ↔ b.Stalls lens ∨ (b.takeAll lens).Stalls more := by
  induction lens generalizing b with
  | nil => exact (false_or _).symm.to_iff
  | cons len lens ih =>
    rw [List.cons_append, Stalls, Stalls, ih, or_assoc]
    rfl

/-- Reads that all have room for a sample never stall. -/
theorem not_stalls_of_roomy (b : JitterBuffer) {lens : List Nat} (h : ∀ len ∈ lens, 2 ≤ len) :
    ¬ b.Stalls lens := by
  induction lens generalizing b with
  | nil => exact id
  | cons len lens ih =>
    rintro (⟨hlen, -⟩ | hstalls)
    · exact absurd (h len List.mem_cons_self) (Nat.not_le_of_lt hlen)
    · exact ih _ (fun n hn => h n (List.mem_cons_of_mem len hn)) hstalls

/-! ## One read -/

variable {b : JitterBuffer} {left : List Int16}

theorem target_take (b : JitterBuffer) (len : Nat) : (b.take len).1.target = b.target := by
  have hmode := (b.queue.read_frame b.target (len / 2)).1
  simp only [target, mode, take] at hmode ⊢
  rw [hmode]

/-- Playing goes on or can begin, if anything is left. -/
def Flows (b : JitterBuffer) : Prop :=
  b.queue.playing = true ∨ b.buffered = 0 ∨ b.target ≤ b.buffered

theorem ready_of_flows (h : b.Flows) (hleft : b.buffered ≠ 0) :
    b.queue.ready b.target = true := by
  rw [Queue.ready_eq_true_iff]
  rcases h with hplaying | hnone | henough
  · exact .inl hplaying
  · exact absurd hnone hleft
  · exact .inr ⟨hleft, henough⟩

/-- The two ways in which a buffer is read: it waits, and nothing happens, or what it holds is
played from the front on. -/
theorem take_cases (h : b.queue.Holds left) (len : Nat) :
    (¬ b.queue.ready b.target = true ∧ b.take len = (b, [])) ∨
    (b.queue.ready b.target = true ∧
      (b.take len).2 = Audio.bytes (left.take (len / 2)) ∧
      (b.take len).1.queue.Holds (left.drop (len / 2)) ∧
      (b.take len).1.queue.playing = !(left.take (len / 2)).isEmpty) := by
  by_cases hready : b.queue.ready b.target = true
  · obtain ⟨htaken, hholds, hplaying⟩ := h.read hready (len / 2)
    exact .inr ⟨hready, congrArg Audio.bytes htaken, hholds, hplaying⟩
  · refine .inl ⟨hready, ?_⟩
    rw [take, Queue.read_waiting hready]
    rfl

/-- Whether it waits or not, a buffer gives away the front of what it holds. -/
theorem holds_take (h : b.queue.Holds left) (len : Nat) :
    ∃ n, (b.take len).2 = Audio.bytes (left.take n) ∧
      (b.take len).1.queue.Holds (left.drop n) := by
  rcases take_cases h len with ⟨-, htake⟩ | ⟨-, htaken, hholds, -⟩
  · rw [htake]
    exact ⟨0, rfl, h⟩
  · exact ⟨len / 2, htaken, hholds⟩

/-- What was heard was played. -/
theorem flows_of_take (h : b.queue.Holds left) {len : Nat} (hheard : (b.take len).2 ≠ []) :
    (b.take len).1.Flows := by
  rcases take_cases h len with ⟨-, htake⟩ | ⟨-, htaken, -, hplaying⟩
  · exact absurd (congrArg Prod.snd htake) hheard
  · have hsome : left.take (len / 2) ≠ [] := by
      intro hnone
      rw [htaken, hnone] at hheard
      exact hheard rfl
    exact .inl (by simpa [hplaying] using hsome)

/-- A read with room for a sample returns something, if anything is left that can be played. -/
theorem take_ne_nil (h : b.queue.Holds left) (hflows : b.Flows) (hleft : left ≠ []) {len : Nat}
    (hlen : 2 ≤ len) : (b.take len).2 ≠ [] := by
  have hsome : 0 < left.length := List.length_pos_iff.2 hleft
  have hbuffered : b.buffered = left.length := h.buffered
  obtain ⟨-, htaken, -⟩ :=
    (take_cases h len).resolve_left fun hwaits => hwaits.1 (ready_of_flows hflows (by omega))
  rw [htaken]
  refine List.ne_nil_of_length_pos ?_
  rw [Audio.length_bytes, List.length_take]
  omega

/-- A read ends the flow only where it stalls. -/
theorem flows_take (h : b.queue.Holds left) (hflows : b.Flows) {len : Nat}
    (hstall : ¬ (len < 2 ∧ b.RunsLow)) : (b.take len).1.Flows := by
  rcases take_cases h len with ⟨-, htake⟩ | ⟨-, -, hholds, hplaying⟩
  · rwa [htake]
  · by_cases hnone : left.take (len / 2) = []
    · have hlength := congrArg List.length hnone
      rw [List.length_take, List.length_nil] at hlength
      have hbuffered : b.buffered = left.length := h.buffered
      have hrest : (b.take len).1.buffered = (left.drop (len / 2)).length := hholds.buffered
      rw [List.length_drop] at hrest
      refine .inr ?_
      rw [target_take]
      unfold RunsLow at hstall
      omega
    · exact .inl (by simpa [hplaying] using hnone)

/-! ## Any reads -/

theorem flows_takeAll (h : b.queue.Holds left) {lens : List Nat}
    (hstarted : b.Flows ∨ b.heard lens ≠ []) (hstalls : ¬ b.Stalls lens) :
    (b.takeAll lens).Flows := by
  induction lens generalizing b left with
  | nil => exact hstarted.resolve_right fun hheard => hheard rfl
  | cons len lens ih =>
    rw [Stalls, not_or] at hstalls
    obtain ⟨n, -, hrest⟩ := holds_take h len
    refine ih hrest ?_ hstalls.2
    rcases hstarted with hflows | hheard
    · exact .inl (flows_take h hflows hstalls.1)
    · by_cases hfirst : (b.take len).2 = []
      · rw [heard, hfirst] at hheard
        exact .inr hheard
      · exact .inl (flows_of_take h hfirst)

/-- What is heard is the front of what the buffer held, which holds the rest. -/
theorem heard_prefix (h : b.queue.Holds left) (lens : List Nat) :
    ∃ n, b.heard lens = Audio.bytes (left.take n) ∧
      (b.takeAll lens).queue.Holds (left.drop n) := by
  induction lens generalizing b left with
  | nil => exact ⟨0, rfl, h⟩
  | cons len lens ih =>
    obtain ⟨n, htaken, hholds⟩ := holds_take h len
    obtain ⟨m, hheard, hrest⟩ := ih hholds
    refine ⟨n + m, ?_, ?_⟩
    · rw [heard, htaken, hheard, ← Audio.bytes_append, List.take_add]
    · rwa [← List.drop_drop]

/-- Without a stall, reads with enough room for what is left return all of it. -/
theorem heard_all (h : b.queue.Holds left) (hflows : b.Flows) {lens : List Nat}
    (hstalls : ¬ b.Stalls lens) (hroom : 2 * left.length ≤ room lens) :
    b.heard lens = Audio.bytes left := by
  induction lens generalizing b left with
  | nil =>
    obtain rfl : left = [] := by
      rw [room] at hroom
      exact List.length_eq_zero_iff.1 (by omega)
    rfl
  | cons len lens ih =>
    rw [Stalls, not_or] at hstalls
    rw [room] at hroom
    by_cases hnone : b.buffered = 0
    · obtain rfl : left = [] := List.length_eq_zero_iff.1 (h.buffered.symm.trans hnone)
      obtain ⟨n, hheard, -⟩ := heard_prefix h (len :: lens)
      rw [hheard, List.take_nil]
    · obtain ⟨-, htaken, hholds, -⟩ :=
        (take_cases h len).resolve_left fun hwaits => hwaits.1 (ready_of_flows hflows hnone)
      have hrest : 2 * (left.drop (len / 2)).length ≤ room lens := by
        rw [List.length_drop]
        omega
      rw [heard, htaken, ih hholds (flows_take h hflows hstalls.1) hstalls.2 hrest,
        ← Audio.bytes_append, List.take_append_drop]

/-- A stall ends playing and leaves what is left where it is. -/
theorem take_stalled (h : b.queue.Holds left) {len : Nat} (hlen : len < 2) (hlow : b.RunsLow) :
    (b.take len).2 = [] ∧ (b.take len).1.queue.playing = false ∧ (b.take len).1.RunsLow := by
  have hnothing : len / 2 = 0 := by omega
  rcases take_cases h len with ⟨hwaits, htake⟩ | ⟨-, htaken, hholds, hplaying⟩
  · rw [Queue.ready_eq_true_iff, not_or, Bool.not_eq_true] at hwaits
    rw [htake]
    exact ⟨rfl, hwaits.1, hlow⟩
  · rw [hnothing] at htaken hholds hplaying
    have hsame : (b.take len).1.buffered = b.buffered := hholds.buffered.trans h.buffered.symm
    refine ⟨htaken, hplaying, ?_⟩
    rw [RunsLow, hsame, target_take]
    exact hlow

/-- A buffer that runs low and is not being played is silent. -/
theorem heard_stuck (hplaying : b.queue.playing = false) (hlow : b.RunsLow) (lens : List Nat) :
    b.heard lens = [] := by
  have hwaits : ¬ b.queue.ready b.target = true := by
    rw [Queue.ready_eq_true_iff, hplaying]
    rintro (hplays | ⟨-, henough⟩)
    · exact Bool.false_ne_true hplays
    · exact Nat.not_le_of_lt hlow.2 henough
  induction lens with
  | nil => rfl
  | cons len lens ih =>
    have htake : b.take len = (b, []) := by
      rw [take, Queue.read_waiting hwaits]
      rfl
    rw [heard, htake]
    exact ih

/-- After a stall, what is heard is not all that the buffer held, however often it is read. -/
theorem heard_stalled (h : b.queue.Holds left) {lens : List Nat} (hstalls : b.Stalls lens) :
    ∃ n < left.length, b.heard lens = Audio.bytes (left.take n) := by
  induction lens generalizing b left with
  | nil => exact hstalls.elim
  | cons len lens ih =>
    rcases hstalls with ⟨hlen, hlow⟩ | hlater
    · obtain ⟨hnothing, hplaying, hstill⟩ := take_stalled h hlen hlow
      have hleft : 0 < left.length := h.buffered ▸ hlow.1
      refine ⟨0, hleft, ?_⟩
      rw [heard, hnothing, heard_stuck hplaying hstill]
      rfl
    · obtain ⟨n, htaken, hholds⟩ := holds_take h len
      obtain ⟨m, hlt, hheard⟩ := ih hholds hlater
      rw [List.length_drop] at hlt
      refine ⟨n + m, by omega, ?_⟩
      rw [heard, htaken, hheard, ← Audio.bytes_append, List.take_add]

theorem heard_ne_of_stalls (h : b.queue.Holds left) {lens : List Nat} (hstalls : b.Stalls lens) :
    b.heard lens ≠ Audio.bytes left := by
  obtain ⟨n, hlt, hheard⟩ := heard_stalled h hstalls
  intro hall
  have hlength := congrArg List.length (hheard.symm.trans hall)
  rw [Audio.length_bytes, Audio.length_bytes, List.length_take] at hlength
  omega

/-- Once something was heard, reads with enough room for what is left return all of it exactly if
none of them stalls. -/
theorem heard_rest (h : b.queue.Holds left) {lens more : List Nat} (hstarted : b.heard lens ≠ [])
    (hroom : 2 * left.length ≤ (b.heard lens).length + room more) :
    b.heard (lens ++ more) = Audio.bytes left ↔ ¬ b.Stalls (lens ++ more) := by
  constructor
  · exact fun hall hstalls => heard_ne_of_stalls h hstalls hall
  · intro hstalls
    rw [stalls_append, not_or] at hstalls
    obtain ⟨n, hheard, hrest⟩ := heard_prefix h lens
    have hflows := flows_takeAll h (.inr hstarted) hstalls.1
    rw [hheard, Audio.length_bytes, List.length_take] at hroom
    have hfits : 2 * (left.drop n).length ≤ room more := by
      rw [List.length_drop]
      omega
    rw [heard_append, hheard, heard_all hrest hflows hstalls.2 hfits, ← Audio.bytes_append,
      List.take_append_drop]

end JitterBuffer

end CallBridge.Playout
